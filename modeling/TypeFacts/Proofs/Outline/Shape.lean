import TypeFacts.Outline.Read
import TypeFacts.Proofs.Declaration.Coherence

/-!
# The shape of outlines

Whatever tree an outline is read from, classes have the names that their namespaces and short names
make, the modifiers of their kinds and no others of this sort, and the parameters of functions are
numbered from zero without gaps, also where a part of the tree that should declare a parameter does
not (`FileOutline.IsRead.shaped`). Nothing of this depends on the types that are kept while reading.
-/

namespace TypeFacts

/-- The parameters are numbered from zero. -/
def FunctionOutline.Numbered (f : FunctionOutline) : Prop :=
  f.parameters.map (·.position) = List.range f.parameters.length

/-- The header of the class agrees with itself, and its methods are numbered. -/
structure ClassOutline.Shaped (c : ClassOutline) : Prop where
  name_eq : c.name = Scope.underNamespace c.ns c.shortName
  marks : c.kind.Marks c.modifiers
  numbered : ∀ m ∈ c.methods, m.Numbered

/-- Classes and functions of the file have their shape. -/
structure FileOutline.Shaped (o : FileOutline) : Prop where
  classes : ∀ c ∈ o.classes, c.Shaped
  functions : ∀ f ∈ o.functions, f.Numbered

namespace Outline

open Infer (InferM FunctionTypes)

variable {functions : FunctionTypes}

/-! ### Functions -/

theorem position_readParameter (scope : Scope) (position : Nat) (n : Node) :
    Always (fun p => ∀ q, p = some q → q.position = position)
      (readParameter functions scope position n) := by
  unfold readParameter
  split
  · exact ensures_pure fun q hq => by cases hq
  · refine (always_true _).bind fun declared _ => (always_true _).bind fun defaultType _ => ?_
    exact ensures_pure fun q hq => by rw [← Option.some.inj hq]

/-- Parameters are numbered from the first position on. -/
theorem positions_readParameters (scope : Scope) (position : Nat) (ns : List Node) :
    Always (fun ps => ps.map (·.position) = List.range' position ps.length)
      (readParameters functions scope position ns) := by
  induction ns generalizing position with
  | nil => exact ensures_pure rfl
  | cons n ns ih =>
    refine (position_readParameter scope position n).bind fun p hp => ?_
    cases p with
    -- a part that is no parameter takes no position
    | none => exact ih position
    | some p =>
      refine (ih (position + 1)).bind fun ps hps => ensures_pure ?_
      rw [List.map_cons, hps, hp p rfl, List.length_cons, List.range'_succ]

/-- A function that is read has numbered parameters. -/
theorem numbered_readFunction (scope : Scope) (owner : Option String) (c : Cursor) :
    Always (fun r => ∀ f, r = some f → f.Numbered) (readFunction functions scope owner c) := by
  unfold readFunction
  simp only
  split
  · exact ensures_pure fun f hf => by cases hf
  · refine (positions_readParameters scope 0 _).bind fun ps hps => ?_
    refine (always_true _).bind fun declared _ => ensures_pure fun f hf => ?_
    obtain rfl := Option.some.inj hf
    rw [FunctionOutline.Numbered, hps, List.range_eq_range']

/-! ### Classes -/

/-- Members do not change the header. -/
theorem shaped_readMember {cls : ClassOutline} (h : cls.Shaped) (c : Cursor) :
    Always ClassOutline.Shaped (readMember functions cls c) := by
  unfold readMember
  split
  · refine (numbered_readFunction cls.scope (some cls.name) c).bind fun r hr => ?_
    cases r with
    | none => exact ensures_pure h
    | some m =>
      refine ensures_pure { h with numbered := fun m' hm' => ?_ }
      rcases List.mem_append.mp hm' with hm' | hm'
      · exact h.numbered m' hm'
      · exact hr m' (congrArg some (List.mem_singleton.mp hm').symm)
  · exact (always_true _).bind fun ps _ => ensures_pure { h with }
  · exact (always_true _).bind fun ks _ => ensures_pure { h with }
  · exact (always_true _).bind fun k _ => ensures_pure { h with }
  · exact ensures_pure { h with }
  · exact ensures_pure h

theorem shaped_readClause {cls : ClassOutline} (h : cls.Shaped) (n : Node) :
    (readClause cls n).Shaped := by
  unfold readClause
  simp only
  split_ifs
  · exact { h with }
  · split
    · exact h
    · exact { h with }
  · exact { h with }
  · exact h

theorem shaped_classHeader (c : Cursor) (shortName : String) :
    (classHeader c shortName).Shaped := by
  refine List.foldlRecOn _ readClause ?_ fun cls h n _ => shaped_readClause h n
  refine ⟨rfl, ClassKind.marks_append (fun w hw => ?_) _, fun m hm => by cases hm⟩
  simpa using (List.mem_filter.mp hw).2

/-- A class that is read has the shape that building relies on. -/
theorem shaped_readClass (c : Cursor) :
    Always (fun r => ∀ cls, r = some cls → cls.Shaped) (readClass functions c) := by
  unfold readClass
  split
  · exact ensures_pure fun cls hcls => by cases hcls
  · next shortName _ =>
    have hmembers : Always ClassOutline.Shaped
        ((memberPlaces c).foldlM (readMember functions) (classHeader c shortName)) :=
      Ensures.foldlM (fun cls hcls n _ => shaped_readMember hcls n) (shaped_classHeader c shortName)
    refine hmembers.bind fun cls hcls => ensures_pure fun cls' h => ?_
    rwa [← Option.some.inj h]

/-! ### Files -/

/-- So has all that is read of a file. -/
theorem shaped_readTree (root : Node) : Always FileOutline.Shaped (readTree functions root) := by
  refine (Ensures.mapM fun c _ => shaped_readClass c).bind fun classes hclasses => ?_
  refine (Ensures.mapM fun c _ => numbered_readFunction c.scope none c).bind fun free hfree => ?_
  refine ensures_pure ⟨fun cls hcls => ?_, fun f hf => ?_⟩
  · obtain ⟨r, hr, hsome⟩ := List.mem_filterMap.mp hcls
    exact hclasses r hr cls hsome
  · obtain ⟨r, hr, hsome⟩ := List.mem_filterMap.mp hf
    exact hfree r hr f hsome

end Outline

/-- The outline was read from a tree, with some types kept before. -/
def FileOutline.IsRead (o : FileOutline) : Prop :=
  ∃ functions root types, ((Outline.readTree functions root).run types).1 = .ok o

theorem FileOutline.IsRead.shaped {o : FileOutline} (h : o.IsRead) : o.Shaped := by
  obtain ⟨functions, root, types, hread⟩ := h
  exact (Outline.shaped_readTree root types trivial).1 o hread

end TypeFacts
