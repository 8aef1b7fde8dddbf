import TypeFacts.Outline.Read
import TypeFacts.Proofs.Infer.Memo

/-!
# Outlines with a memo

Reading the outline of a tree infers the types of default values and constants, with the types kept
so far. Whatever right types are kept, the outline is the same (`Outline.steady_readTree`): every
reader asks only for the types of nodes of the tree.
-/

namespace TypeFacts

/-! ### Readers of outlines -/

namespace Outline

open Infer (InferM FunctionTypes TypeRight infer infer?)

variable {functions : FunctionTypes} {Occurs : Node → Prop}

/-- A reader gives one result whatever right types are kept. -/
abbrev SteadyReader (functions : FunctionTypes) (Occurs : Node → Prop) {α : Type}
    (x : InferM α) : Prop :=
  Steady (Memo.Holds (TypeRight functions Occurs)) x.run

/-! ### Values that are looked at -/

theorem occurs_propertyDefault? (hclosed : Node.Closed Occurs) {e d : Node} (he : Occurs e)
    (hd : propertyDefault? e = some d) : Occurs d := by
  unfold propertyDefault? at hd
  cases hdefault : e.child? "default_value" with
  | some d' =>
    rw [hdefault] at hd
    rw [← Option.some.inj hd]
    exact hclosed.child? he hdefault
  | none =>
    rw [hdefault] at hd
    obtain ⟨i, hi, hhead⟩ := Option.bind_eq_some_iff.mp hd
    exact hclosed.namedChildren (hclosed.namedOf? he hi) (List.mem_of_head? hhead)

/-- The value of a constant occurs where its element does. -/
theorem occurs_constantValue (hclosed : Node.Closed Occurs) {e name second : Node}
    {rest : List Node} (he : Occurs e)
    (hparts : e.namedChildren.filter (·.kind != "comment") = name :: second :: rest) :
    Occurs ((e.child? "value").getD ((second :: rest).getLast (by simp))) := by
  -- without a part of its own role, the value is what stands last
  have hlast : (second :: rest).getLast (by simp) ∈ e.namedChildren := by
    have hmem : (second :: rest).getLast (by simp)
        ∈ e.namedChildren.filter (·.kind != "comment") := by
      rw [hparts]
      exact List.mem_cons_of_mem name (List.getLast_mem _)
    exact (List.mem_filter.mp hmem).1
  cases hvalue : e.child? "value" with
  | none => exact hclosed.namedChildren he hlast
  | some v => exact hclosed.child? he hvalue

section Readers

variable (hconsistent : Node.Consistent Occurs) (hclosed : Node.Closed Occurs)
include hconsistent hclosed

/-- The type of a node that may occur does not depend on what is kept. -/
theorem steady_infer {n : Node} (hn : Occurs n) :
    SteadyReader functions Occurs (infer functions n) :=
  ⟨_, Infer.gives_infer hconsistent hclosed hn⟩

theorem steady_infer? {o : Option Node} (h : ∀ n, o = some n → Occurs n) :
    SteadyReader functions Occurs (infer? functions o) := by
  cases o with
  | none => exact steady_pure _
  | some n => exact (steady_infer hconsistent hclosed (h n rfl)).bind fun t => steady_pure _

omit hconsistent hclosed in
theorem steady_declaredType (scope : Scope) (part : Option Node) :
    SteadyReader functions Occurs (declaredType scope part) := by
  cases part with
  | none => exact steady_pure _
  | some n => exact steady_pure _

theorem steady_readParameter (scope : Scope) (position : Nat) {n : Node} (hn : Occurs n) :
    SteadyReader functions Occurs (readParameter functions scope position n) := by
  unfold readParameter
  split
  · exact steady_pure _
  · refine (steady_declaredType scope _).bind fun declared => ?_
    refine Steady.bind ?_ fun defaultType => steady_pure _
    exact steady_infer? hconsistent hclosed fun c hc => hclosed.child? hn hc

theorem steady_readParameters (scope : Scope) : ∀ (position : Nat) {ns : List Node},
    (∀ n ∈ ns, Occurs n) →
      SteadyReader functions Occurs (readParameters functions scope position ns)
  | _, [], _ => steady_pure _
  | position, n :: ns, h => by
    -- a part that is no parameter takes no position
    have hrest := fun position => steady_readParameters scope position fun m hm =>
      h m (List.mem_cons_of_mem n hm)
    refine (steady_readParameter hconsistent hclosed scope position (h n List.mem_cons_self)).bind
      fun p => ?_
    cases p with
    | none => exact hrest position
    | some p => exact (hrest (position + 1)).bind fun ps => steady_pure _

/-- A function is read alike whatever types are kept. -/
theorem steady_readFunction (scope : Scope) (owner : Option String) {c : Cursor}
    (hc : Occurs c.node) :
    SteadyReader functions Occurs (readFunction functions scope owner c) := by
  unfold readFunction
  simp only
  split
  · exact steady_pure _
  · refine (steady_readParameters hconsistent hclosed scope 0 fun n hn => ?_).bind fun ps =>
      (steady_declaredType scope _).bind fun declared => steady_pure _
    have hmem := (List.mem_filter.mp hn).1
    cases hps : c.node.child? "parameters" with
    | none =>
      rw [hps] at hmem
      cases hmem
    | some ps =>
      rw [hps] at hmem
      exact hclosed.namedChildren (hclosed.child? hc hps) hmem

theorem steady_readProperties (scope : Scope) {c : Cursor} (hc : Occurs c.node) :
    SteadyReader functions Occurs (readProperties functions scope c) := by
  refine (steady_declaredType scope _).bind fun declared => Steady.mapM fun ve hve => ?_
  obtain ⟨e, he, hv⟩ := List.mem_filterMap.mp hve
  have hoccurs : Occurs ve.2 := by
    obtain ⟨v, -, rfl⟩ := Option.map_eq_some_iff.mp hv
    exact hclosed.namedChildren hc (List.mem_filter.mp he).1
  refine Steady.bind (steady_infer? hconsistent hclosed fun d hd => ?_) fun t => steady_pure _
  exact occurs_propertyDefault? hclosed hoccurs hd

theorem steady_readConstants {n : Node} (hn : Occurs n) :
    SteadyReader functions Occurs (readConstants functions n) := by
  refine Steady.mapM fun nv hnv => ?_
  obtain ⟨e, he, hv⟩ := List.mem_filterMap.mp hnv
  have hoccurs : Occurs e := hclosed.namedChildren hn (List.mem_filter.mp he).1
  refine (steady_infer hconsistent hclosed ?_).bind fun t => steady_pure _
  split at hv
  · next name second rest hparts =>
    rw [← Option.some.inj hv]
    exact occurs_constantValue hclosed hoccurs hparts
  · cases hv

theorem steady_readCase (enumName : String) {n : Node} (hn : Occurs n) :
    SteadyReader functions Occurs (readCase functions enumName n) := by
  unfold readCase
  split
  · exact steady_pure _
  · split
    · exact Steady.bind (steady_pure _) fun t => steady_pure _
    · next v hv =>
      exact (steady_infer hconsistent hclosed (hclosed.child? hn hv)).bind fun t => steady_pure _

/-- A member of a class is read alike whatever types are kept. -/
theorem steady_readMember (cls : ClassOutline) {c : Cursor} (hc : Occurs c.node) :
    SteadyReader functions Occurs (readMember functions cls c) := by
  unfold readMember
  split
  · refine (steady_readFunction hconsistent hclosed _ _ hc).bind fun m => ?_
    cases m <;> exact steady_pure _
  · exact (steady_readProperties hconsistent hclosed _ hc).bind fun ps => steady_pure _
  · exact (steady_readConstants hconsistent hclosed hc).bind fun ks => steady_pure _
  · exact (steady_readCase hconsistent hclosed _ hc).bind fun k => steady_pure _
  · exact steady_pure _
  · exact steady_pure _

/-- A class is read alike whatever types are kept. -/
theorem steady_readClass {c : Cursor} (hc : Occurs c.node) :
    SteadyReader functions Occurs (readClass functions c) := by
  unfold readClass
  split
  · exact steady_pure _
  · refine Steady.bind (Steady.foldlM (fun cls m hm => ?_) _) fun cls => steady_pure _
    refine steady_readMember hconsistent hclosed cls ?_
    unfold memberPlaces at hm
    split at hm
    · next body hbody => exact hclosed.placesBelow (hclosed.child? hc hbody) hm
    · cases hm

/-- The outline of a tree does not depend on the types that are kept. -/
theorem steady_readTree {root : Node} (hroot : Occurs root) :
    SteadyReader functions Occurs (readTree functions root) := by
  have hfind : ∀ kinds, ∀ c ∈ (Cursor.ofRoot root).find kinds, Occurs c.node :=
    fun kinds => hclosed.find hroot
  refine Steady.bind (Steady.mapM fun c hc => ?_) fun classes => ?_
  · exact steady_readClass hconsistent hclosed (hfind _ c hc)
  · refine Steady.bind (Steady.mapM fun c hc => ?_) fun free => steady_pure _
    exact steady_readFunction hconsistent hclosed _ _ (hfind _ c hc)

end Readers

end Outline

end TypeFacts
