import TypeFacts.Proofs.Infer.Memo

/-!
# Runs of inference

A run asks for the types of nodes of some trees, one after the other, and forgets from time to time
what was kept. The memo is filled at every level of the recursion, also by calls that fail midway,
and it answers for all nodes of one kind and text, whichever tree they belong to. Where these have
equal subtrees, every answer of the run is that of plain recursion (`Infer.answers_eq_plain`): one
call keeps the memo right (`Infer.gives_infer`), and so does the run.
-/

namespace TypeFacts

namespace Infer

/-- A step of a run. -/
inductive Step where
  /-- Asks for the type of a node. -/
  | infer (n : Node)
  /-- Forgets all types. -/
  | clear

/-- The nodes that a run asks for, in order. -/
def asked : List Step → List Node
  | [] => []
  | .infer n :: steps => n :: asked steps
  | .clear :: steps => asked steps

/-- The answers of a run that begins with the given memo. -/
def answers (functions : FunctionTypes) : List Step → TypeMemo → List (Except Ty.Fault Ty)
  | [], _ => []
  | .infer n :: steps, m =>
    ((infer functions n).run m).1 :: answers functions steps ((infer functions n).run m).2
  | .clear :: steps, m => answers functions steps m.clear

variable {functions : FunctionTypes} {Occurs : Node → Prop}

/-- With right types kept, a run gives the types of plain recursion. -/
theorem answers_of_holds (hconsistent : Node.Consistent Occurs) (hclosed : Node.Closed Occurs)
    {steps : List Step} (hsteps : ∀ n ∈ asked steps, Occurs n) {m : TypeMemo}
    (hm : m.Holds (TypeRight functions Occurs)) :
    answers functions steps m = (asked steps).map (plain functions) := by
  -- the induction is on the steps; the memo that each one leaves behind goes along
  induction steps generalizing m with
  | nil => rfl
  | cons step steps ih =>
    cases step with
    | clear => exact ih hsteps (Memo.holds_clear m)
    | infer n =>
      have hn : Occurs n := hsteps n List.mem_cons_self
      obtain ⟨hanswer, hkept⟩ := gives_infer hconsistent hclosed hn m hm
      have hrest := ih (fun c hc => hsteps c (List.mem_cons_of_mem n hc)) hkept
      exact congrArg₂ List.cons hanswer hrest

/-- In trees whose nodes of one kind and text have equal subtrees, every call of a run gives what
plain recursion gives for its node, a type or a fault, whatever was asked or forgotten before. -/
theorem answers_eq_plain (functions : FunctionTypes) (Trees : Node → Prop)
    (hconsistent : Node.Consistent (Node.Among Trees)) (steps : List Step)
    (hsteps : ∀ n ∈ asked steps, Node.Among Trees n) :
    answers functions steps .empty = (asked steps).map (plain functions) :=
  answers_of_holds hconsistent (Node.closed_among Trees) hsteps Memo.holds_empty

/-! ### A run over two trees -/

/-- A part of an expression that begins at the given place. -/
def partAt (start : Nat) (kind role text : String) (named : Bool) (children : List Node) : Node :=
  .mk kind named false false start 1 (start + 1) role text children

/-- The number one at a place. -/
def oneAt (start : Nat) (role : String) : Node := partAt start "integer" role "1" true []

/-- The sum of two ones. -/
def sumTree : Node :=
  partAt 0 "binary_expression" "" "1 + 1" true
    [oneAt 0 "left", partAt 2 "+" "operator" "+" false [], oneAt 4 "right"]

/-- A name that has no characters but a backslash. -/
def slashNode : Node := partAt 8 "qualified_name" "" "\\" true []

/-- A new object of a class without a name. -/
def creationNode : Node := partAt 4 "object_creation_expression" "right" "new \\" true [slashNode]

/-- The sum of one and an object whose class has no name. -/
def faultyTree : Node :=
  partAt 0 "binary_expression" "" "1 + new \\" true
    [oneAt 0 "left", partAt 2 "+" "operator" "+" false [], creationNode]

/-- The two trees. -/
def IsRunTree (root : Node) : Prop :=
  root = sumTree ∨ root = faultyTree

/-- The nodes of both trees. -/
def runNodes : List Node :=
  [sumTree, faultyTree, oneAt 0 "left", oneAt 4 "right", partAt 2 "+" "operator" "+" false [],
    creationNode, slashNode]

/-- A sum whose second operand fails when the first is kept already, a number of the other tree that
is kept from there, and both sums before and after clearing. -/
def sampleRun : List Step :=
  [.infer faultyTree, .infer (oneAt 4 "right"), .infer sumTree, .clear, .infer sumTree,
    .infer faultyTree]

theorem mem_runNodes {n : Node} (h : Node.Among IsRunTree n) : n ∈ runNodes := by
  have hbelow : ∀ m ∈ runNodes, ∀ c ∈ m.children, c ∈ runNodes := by
    simp [runNodes, sumTree, faultyTree, creationNode, slashNode, oneAt, partAt, Node.children]
  obtain ⟨root, hroot, hn⟩ := h
  induction hn with
  | root =>
    rcases hroot with rfl | rfl
    · exact List.mem_cons_self
    · exact List.mem_cons_of_mem _ List.mem_cons_self
  | child _ hc ih => exact hbelow _ ih _ hc

theorem runNodes_consistent : Node.Consistent (Node.Among IsRunTree) := by
  -- nodes that share kind and text are one and the same, or have no parts
  have hkeys : ∀ i j : Fin runNodes.length, memoKey runNodes[i] = memoKey runNodes[j] →
      i = j ∨ runNodes[i].children.isEmpty = true ∧ runNodes[j].children.isEmpty = true := by
    decide +kernel
  intro n m hn hm hkind htext
  obtain ⟨i, hi, rfl⟩ := List.mem_iff_getElem.mp (mem_runNodes hn)
  obtain ⟨j, hj, rfl⟩ := List.mem_iff_getElem.mp (mem_runNodes hm)
  rcases hkeys ⟨i, hi⟩ ⟨j, hj⟩ (Prod.ext hkind htext) with heq | ⟨hi', hj'⟩
  · obtain rfl : i = j := congrArg Fin.val heq
    rfl
  · have hleaf : ∀ {c : Node}, c.children.isEmpty = true → c.children.map Node.bare = [] :=
      fun hc => by rw [List.isEmpty_iff.mp hc, List.map_nil]
    exact (hleaf hi').trans (hleaf hj').symm

theorem answers_eq_plain_two_trees :
    Node.Consistent (Node.Among IsRunTree) ∧
    (∀ n ∈ asked sampleRun, Node.Among IsRunTree n) ∧
    answers [] sampleRun .empty = (asked sampleRun).map (plain []) ∧
    (asked sampleRun).map (plain []) = [.error .emptyName, .ok (.scalar .int false),
      .ok (.scalar .int false), .ok (.scalar .int false), .error .emptyName] := by
  have hsum : Node.Among IsRunTree sumTree := ⟨_, .inl rfl, .root⟩
  have hfaulty : Node.Among IsRunTree faultyTree := ⟨_, .inr rfl, .root⟩
  have hone : Node.Among IsRunTree (oneAt 4 "right") :=
    Node.closed_among _ sumTree hsum _ (by simp [sumTree, partAt, Node.children])
  have hsteps : ∀ n ∈ asked sampleRun, Node.Among IsRunTree n := by
    simp [asked, sampleRun, hsum, hfaulty, hone]
  refine ⟨runNodes_consistent, hsteps,
    answers_eq_plain [] IsRunTree runNodes_consistent sampleRun hsteps, ?_⟩
  decide +kernel

end Infer

end TypeFacts
