import TypeFacts.Infer.Basic
import TypeFacts.Proofs.Infer.Plan
import TypeFacts.Proofs.Memo.Steady

/-!
# Inference with a memo

The type of a node depends on its kind, its text and the subtrees below it, and not on the place
where it stands (`Infer.plain_congr`). Where nodes of one kind and text have equal subtrees
(`Node.Consistent`), the types kept by kind and text are those of plain recursion, and inference
with what is kept gives the same types (`Infer.gives_infer`).
-/

namespace TypeFacts

namespace Infer

open Node (Alike Closed)

/-! ### Types of nodes that are alike -/

/-- The plan of a node is carried out part by part. -/
theorem plain_eq (functions : FunctionTypes) (n : Node) : plain functions n =
    (do
      let ts ← ((plan functions n).parts.map Subtype.val).mapM (plain functions)
      (plan functions n).combine ts) := by
  rw [plain, List.mapM_map]
  rfl

/-- Nodes that are alike have one type. -/
theorem plain_congr (functions : FunctionTypes) {a b : Node} (h : Alike a b) :
    plain functions a = plain functions b := by
  obtain ⟨hparts, hcombine⟩ := plan_congr functions h
  -- parts that are equal up to their places are alike, and smaller than the node
  have hrow : ∀ (l : List a.Below) (l' : List b.Below),
      l.map Node.Below.bare = l'.map Node.Below.bare →
        (l.map Subtype.val).mapM (plain functions)
          = (l'.map Subtype.val).mapM (plain functions) := by
    intro l
    induction l with
    | nil =>
      intro l' hl
      cases l' with
      | nil => rfl
      | cons d l' => cases hl
    | cons c l ih =>
      intro l' hl
      cases l' with
      | nil => cases hl
      | cons d l' =>
        obtain ⟨hcd, hl⟩ := List.cons.inj hl
        have hsize := c.2
        simp only [List.map_cons, List.mapM_cons, ih l' hl,
          plain_congr functions (Node.alike_of_bare_eq hcd)]
  rw [plain_eq, plain_eq, hrow _ _ hparts, hcombine]
termination_by sizeOf a

/-! ### Types that are kept -/

section Kept

variable {functions : FunctionTypes} {Occurs : Node → Prop}

/-- The type is that of all nodes that occur with the key. -/
def TypeRight (functions : FunctionTypes) (Occurs : Node → Prop) (key : String × String) (t : Ty) :
    Prop :=
  ∀ n, Occurs n → memoKey n = key → plain functions n = .ok t

theorem typeRight_of_plain (hconsistent : Node.Consistent Occurs) {n : Node} (hn : Occurs n)
    {t : Ty} (ht : plain functions n = .ok t) : TypeRight functions Occurs (memoKey n) t := by
  intro m hm hkey
  obtain ⟨hkind, htext⟩ := Prod.mk.inj hkey
  rw [plain_congr functions ⟨hkind, htext, hconsistent m n hm hn hkind htext⟩, ht]

theorem infer_run (functions : FunctionTypes) (n : Node) (m : TypeMemo) :
    (infer functions n).run m =
    match m.find? (memoKey n) with
    | some stored => (.ok stored.value, m)
    | none => (do
        let ts ← (plan functions n).parts.mapM fun c => infer functions c.1
        let t ← ((plan functions n).combine ts : Except Ty.Fault Ty)
        modify fun m => (m.store (memoKey n) t).2
        return t : InferM Ty).run m := by
  rw [infer, run_get_bind]
  cases m.find? (memoKey n) <;> rfl

/-- Inference with what is kept gives the types of plain recursion, and keeps only right ones. -/
theorem gives_infer (hconsistent : Node.Consistent Occurs) (hclosed : Closed Occurs) {n : Node}
    (hn : Occurs n) :
    Gives (Memo.Holds (TypeRight functions Occurs)) (infer functions n).run
      (plain functions n) := by
  intro m hm
  rw [infer_run]
  cases h : m.find? (memoKey n) with
  | some stored => exact ⟨(hm (memoKey n) stored h n hn rfl).symm, hm⟩
  | none =>
    -- the types of the parts may be kept on the way, and the type of the node after them
    have hparts : Gives (Memo.Holds (TypeRight functions Occurs))
        ((plan functions n).parts.mapM fun c => infer functions c.1).run
        ((plan functions n).parts.mapM fun c => plain functions c.1) :=
      Gives.mapM fun c hc =>
        have := c.2
        gives_infer hconsistent hclosed (hclosed.plan hn functions c hc)
    have hplain : plain functions n =
        ((plan functions n).parts.mapM fun c => plain functions c.1) >>=
          (plan functions n).combine := by
      rw [plain]
    have hkeep : ∀ ts, ((plan functions n).parts.mapM fun c => plain functions c.1) = .ok ts →
        Gives (Memo.Holds (TypeRight functions Occurs)) (do
          let t ← ((plan functions n).combine ts : Except Ty.Fault Ty)
          modify fun m => (m.store (memoKey n) t).2
          return t : InferM Ty).run ((plan functions n).combine ts) := by
      intro ts hts m hm
      cases ht : (plan functions n).combine ts with
      | error e => exact ⟨rfl, hm⟩
      | ok t =>
        refine ⟨rfl, hm.store (typeRight_of_plain hconsistent hn ?_)⟩
        rw [hplain, hts]
        exact ht
    rw [hplain]
    exact hparts.bind hkeep m hm
termination_by sizeOf n

end Kept

end Infer

end TypeFacts
