import TypeFacts.Infer.Plan
import TypeFacts.Memo

/-!
# Types of expressions

The type of an expression follows from its structure alone. `Infer.plain` computes it by recursion;
`Infer.infer` keeps the types found so far, by kind and text, and does not look at a node again
whose kind and text it has met before. Both follow the same plans.
-/

namespace TypeFacts.Infer

/-- The type of a node, by recursion. -/
def plain (functions : FunctionTypes) (n : Node) : Except Ty.Fault Ty := do
  let p := plan functions n
  let ts ← p.parts.mapM fun ⟨c, _⟩ => plain functions c
  p.combine ts
termination_by sizeOf n

/-- The types found so far, by kind and text. -/
abbrev TypeMemo := Memo (String × String) Ty

/-- A computation that may fail and that keeps the types it found even then. -/
abbrev InferM := ExceptT Ty.Fault (StateM TypeMemo)

/-- What a node is known by. -/
def memoKey (n : Node) : String × String := (n.kind, n.text)

/-- The type of a node, from the memo or by its plan; a type that was found is kept. -/
def infer (functions : FunctionTypes) (n : Node) : InferM Ty := do
  match (← get).find? (memoKey n) with
  | some stored => return stored.value
  | none =>
    let p := plan functions n
    let ts ← p.parts.mapM fun ⟨c, _⟩ => infer functions c
    let t ← p.combine ts
    modify fun m => (m.store (memoKey n) t).2
    return t
termination_by sizeOf n

/-- The type of a node that may be left out. -/
def infer? (functions : FunctionTypes) (n : Option Node) : InferM (Option Ty) :=
  match n with
  | some n => return some (← infer functions n)
  | none => return none

end TypeFacts.Infer
