import TypeFacts.Proofs.Outline.Steady
import TypeFacts.Proofs.Tree.Edit

/-!
# What a declaration says itself

An outline holds more than the declaration says of itself: the types of default values and of
constants are inferred, and comments and lines depend on what is around. What remains without them
is what is declared (`ClassOutline.declared`).

Reading the declaration again from a tree with another body of a namespace in it, and with other
types kept, gives the same as far as it is declared (`Outline.parallel_readClass`). The two readings
are compared step by step, as computations side by side (`Parallel`).
-/

namespace TypeFacts

/-! ### Computations side by side -/

section Parallel

variable {σ ε α β γ δ : Type} {excuse : Prop} {R : α → β → Prop} {S : γ → δ → Prop}

/-- The results of two computations are related where both give one. Unless there is an excuse, one
gives a result if the other does, in whatever states. -/
def Parallel (excuse : Prop) (R : α → β → Prop) (x : ExceptT ε (StateM σ) α)
    (y : ExceptT ε (StateM σ) β) : Prop :=
  ∀ s t, (∀ a b, (x.run s).1 = .ok a → (y.run t).1 = .ok b → R a b) ∧
    (excuse ∨ ((∃ a, (x.run s).1 = .ok a) ↔ ∃ b, (y.run t).1 = .ok b))

/-- The computation gives a result in whatever state, unless there is an excuse. -/
def Total (excuse : Prop) (x : ExceptT ε (StateM σ) α) : Prop :=
  ∀ s, excuse ∨ ∃ a, (x.run s).1 = .ok a

variable {x : ExceptT ε (StateM σ) α} {y : ExceptT ε (StateM σ) β}

/-- Results that are related are related without further steps. -/
theorem parallel_pure {a : α} {b : β} (h : R a b) :
    Parallel excuse R (pure a : ExceptT ε (StateM σ) α) (pure b) := by
  refine fun s t => ⟨fun a' b' ha hb => ?_, .inr ⟨fun _ => ⟨b, rfl⟩, fun _ => ⟨a, rfl⟩⟩⟩
  rwa [← Except.ok.inj ha, ← Except.ok.inj hb]

/-- What does not look at the state is parallel to itself. -/
theorem parallel_lift (v : Except ε α) :
    Parallel excuse Eq (liftM v : ExceptT ε (StateM σ) α) (liftM v) := by
  refine fun s t => ⟨fun a b ha hb => ?_, .inr Iff.rfl⟩
  exact Except.ok.inj (ha.symm.trans hb)

/-- Computations that both succeed, unless excused, have results of some kind. -/
theorem parallel_of_total (hx : Total excuse x) (hy : Total excuse y) :
    Parallel excuse (fun _ _ => True) x y := by
  refine fun s t => ⟨fun _ _ _ _ => trivial, ?_⟩
  rcases hx s with h | hx
  · exact .inl h
  · exact (hy t).imp id fun hy => iff_of_true hx hy

/-- Related results may be related more loosely. -/
theorem Parallel.imp {R' : α → β → Prop} (h : Parallel excuse R x y)
    (himp : ∀ a b, R a b → R' a b) :
    Parallel excuse R' x y :=
  fun s t => ⟨fun a b ha hb => himp a b ((h s t).1 a b ha hb), (h s t).2⟩

/-- Related computations go on as related computations. -/
theorem Parallel.bind {f : α → ExceptT ε (StateM σ) γ} {g : β → ExceptT ε (StateM σ) δ}
    (hx : Parallel excuse R x y) (hf : ∀ a b, R a b → Parallel excuse S (f a) (g b)) :
    Parallel excuse S (x >>= f) (y >>= g) := by
  intro s t
  obtain ⟨hrelated, hboth⟩ := hx s t
  rw [run_bind_apply, run_bind_apply]
  rcases hrun : x.run s with ⟨e | a, s'⟩ <;> rcases hrun' : y.run t with ⟨e' | b, t'⟩
  all_goals rw [hrun, hrun'] at hrelated hboth
  · exact ⟨by rintro _ _ ⟨⟩, .inr (by simp)⟩
  · exact ⟨by rintro _ _ ⟨⟩, hboth.imp_right fun h => by simp at h⟩
  · exact ⟨by rintro _ _ _ ⟨⟩, hboth.imp_right fun h => by simp at h⟩
  · exact hf a b (hrelated a b rfl rfl) s' t'

/-- A computation succeeds if each of its two halves does. -/
theorem Total.bind {f : α → ExceptT ε (StateM σ) γ} (hx : Total excuse x)
    (hf : ∀ a, Total excuse (f a)) : Total excuse (x >>= f) := by
  intro s
  rcases hx s with h | ⟨a, ha⟩
  · exact .inl h
  · rw [run_bind_apply]
    rcases hrun : x.run s with ⟨v, s'⟩
    rw [hrun] at ha
    obtain rfl : v = .ok a := ha
    exact hf a s'

theorem total_pure (a : α) : Total excuse (pure a : ExceptT ε (StateM σ) α) :=
  fun _ => .inr ⟨a, rfl⟩

/-- It succeeds on a list if it does on each member. -/
theorem Total.mapM {f : α → ExceptT ε (StateM σ) β} {l : List α} (h : ∀ a ∈ l, Total excuse (f a)) :
    Total excuse (l.mapM f) := by
  induction l with
  | nil =>
    rw [List.mapM_nil]
    exact total_pure _
  | cons a l ih =>
    rw [List.mapM_cons]
    refine (h a List.mem_cons_self).bind fun b => ?_
    exact (ih fun c hc => h c (List.mem_cons_of_mem a hc)).bind fun bs => total_pure _

/-- Lists that are related member by member give related lists. -/
theorem Parallel.mapM {f : α → ExceptT ε (StateM σ) γ} {g : β → ExceptT ε (StateM σ) δ} {l : List α}
    {l' : List β} (h : List.Forall₂ (fun a b => Parallel excuse S (f a) (g b)) l l') :
    Parallel excuse (List.Forall₂ S) (l.mapM f) (l'.mapM g) := by
  induction h with
  | nil =>
    rw [List.mapM_nil, List.mapM_nil]
    exact parallel_pure .nil
  | cons hab _ ih =>
    rw [List.mapM_cons, List.mapM_cons]
    refine hab.bind fun c d hcd => ih.bind fun cs ds hcds => ?_
    exact parallel_pure (.cons hcd hcds)

/-- Related steps over related lists end in related states. -/
theorem Parallel.foldlM {f : γ → α → ExceptT ε (StateM σ) γ} {g : δ → β → ExceptT ε (StateM σ) δ}
    {l : List α} {l' : List β} (h : List.Forall₂ R l l')
    (hstep : ∀ a b, R a b → ∀ c d, S c d → Parallel excuse S (f c a) (g d b)) {c : γ} {d : δ}
    (hcd : S c d) : Parallel excuse S (l.foldlM f c) (l'.foldlM g d) := by
  induction h generalizing c d with
  | nil =>
    rw [List.foldlM_nil, List.foldlM_nil]
    exact parallel_pure hcd
  | cons hab _ ih =>
    rw [List.foldlM_cons, List.foldlM_cons]
    exact (hstep _ _ hab c d hcd).bind fun c d hcd => ih hcd

end Parallel

/-! ### What is declared -/

/-- The parameter without the type of its default value. -/
def ParamOutline.declared (p : ParamOutline) : ParamOutline :=
  { p with defaultType := none }

/-- The function without its comment, its line and the types of default values. -/
def FunctionOutline.declared (f : FunctionOutline) : FunctionOutline :=
  { f with parameters := f.parameters.map ParamOutline.declared, docComment := none, line := none }

/-- The property without its comment and the type of its default value. -/
def PropertyOutline.declared (p : PropertyOutline) : PropertyOutline :=
  { p with defaultType := none, docComment := none }

/-- The class without its comment, its line, its constants and the types of default values. -/
def ClassOutline.declared (c : ClassOutline) : ClassOutline :=
  { c with
    methods := c.methods.map FunctionOutline.declared
    properties := c.properties.map PropertyOutline.declared
    constants := []
    docComment := none
    line := none }

namespace Outline

open Infer (InferM FunctionTypes infer infer?)
open Node (Edited PartEdited)

/-- For some node of the tree, with some types kept, no type can be inferred. -/
def Uninferable (functions : FunctionTypes) (n : Node) : Prop :=
  ∃ d types e, n.Within d ∧ ((infer functions d).run types).1 = .error e

/-- In one of two trees some type cannot be inferred. -/
abbrev Excuse (functions : FunctionTypes) (top top' : Node) : Prop :=
  Uninferable functions top ∨ Uninferable functions top'

variable {functions : FunctionTypes} {top top' n n' : Node}

/-! ### Parameters -/

/-- Types of parts can be inferred, unless a part of either tree has none. -/
theorem total_infer (hn : top.Within n ∨ top'.Within n) :
    Total (Excuse functions top top') (infer functions n) := by
  intro types
  cases h : ((infer functions n).run types).1 with
  | ok t => exact .inr ⟨t, rfl⟩
  | error e => exact .inl (hn.imp (fun hn => ⟨n, types, e, hn, h⟩) fun hn => ⟨n, types, e, hn, h⟩)

theorem total_infer? {o : Option Node} (h : ∀ n, o = some n → top.Within n ∨ top'.Within n) :
    Total (Excuse functions top top') (infer? functions o) := by
  cases o with
  | none => exact total_pure _
  | some n => exact (total_infer (h n rfl)).bind fun t => total_pure _

/-- A type that is written alike is declared alike. -/
theorem parallel_declaredType {excuse : Prop} (scope : Scope) {part part' : Option Node}
    (h : Option.Rel (fun c c' => c'.text = c.text) part part') :
    Parallel excuse Eq (declaredType scope part) (declaredType scope part') := by
  cases h with
  | none => exact parallel_pure rfl
  | some htext =>
    rw [declaredType, declaredType, htext]
    exact parallel_lift _

theorem declaring_of_parameter (hkind : parameterKinds.contains n.kind = true) :
    Node.declaringKinds.contains n.kind = true := by
  have hsub : ∀ k ∈ parameterKinds, Node.declaringKinds.contains k = true := by decide
  exact hsub n.kind (List.contains_iff_mem.mp hkind)

theorem wordKinds_of_variable (k : String) (h : ["variable_name"].contains k = true) :
    Node.wordKinds.contains k = true := by
  rw [List.mem_singleton.mp (List.contains_iff_mem.mp h)]
  decide

/-- A parameter is named by the same variable as before. -/
theorem rel_parameterVariable? (h : Edited n n') (hkind : parameterKinds.contains n.kind = true) :
    Option.Rel (fun c c' => c'.text = c.text) (parameterVariable? n) (parameterVariable? n') := by
  refine rel_orElse ?_ (h.namedWord wordKinds_of_variable)
  have hname := h.child? "name"
  have htext := h.roleWord (declaring_of_parameter hkind) "name" (by decide)
  generalize n.child? "name" = name, n'.child? "name" = name' at hname htext ⊢
  cases hname with
  | none => exact .none
  | some hc =>
    simp only [hc.1.kind]
    split_ifs
    · exact (hc.1.edited fun hbody => by simp [hbody.role] at hc).namedWord wordKinds_of_variable
    · exact htext

/-- A parameter is passed by reference if it was before. -/
theorem isByReference_eq (h : Edited n n') : isByReference n' = isByReference n := by
  have hany : n'.children.any (fun c => c.kind == "reference_modifier" || c.kind == "&")
      = n.children.any fun c => c.kind == "reference_modifier" || c.kind == "&" := by
    have hkinds : n'.children.map Node.kind = n.children.map Node.kind :=
      map_eq_of_forall₂ (h.children.imp fun c c' hc => hc.kind)
    simpa [Function.comp_def] using
      congrArg (List.any · fun k => k == "reference_modifier" || k == "&") hkinds
  have hname : (n'.child? "name").any (·.kind == "by_ref")
      = (n.child? "name").any (·.kind == "by_ref") := by
    have hrel := h.child? "name"
    generalize n.child? "name" = x, n'.child? "name" = x' at hrel ⊢
    cases hrel with
    | none => rfl
    | some hc => simp [hc.1.kind]
  rw [isByReference, isByReference, h.isSome_child?, hany, hname]

/-- The parameter is the same as declared. -/
theorem parallel_readParameter (scope : Scope) (position : Nat) (h : Edited n n')
    (hkind : parameterKinds.contains n.kind = true) (hn : top.Within n) (hn' : top'.Within n') :
    Parallel (Excuse functions top top')
      (fun p p' => p'.map ParamOutline.declared = p.map ParamOutline.declared)
      (readParameter functions scope position n) (readParameter functions scope position n') := by
  have hvariable := rel_parameterVariable? h hkind
  unfold readParameter
  generalize parameterVariable? n = var, parameterVariable? n' = var' at hvariable ⊢
  cases hvariable with
  | none => exact parallel_pure rfl
  | some htext =>
    have htype := h.roleWord (declaring_of_parameter hkind) "type" (by decide)
    refine (parallel_declaredType scope htype).bind fun t t' ht => ?_
    refine (parallel_of_total (total_infer? ?_) (total_infer? ?_)).bind fun d d' _ =>
      parallel_pure ?_
    · exact fun d hd => .inl (hn.child (Node.mem_children_of_child? hd))
    · exact fun d hd => .inr (hn'.child (Node.mem_children_of_child? hd))
    · simp only [Option.map_some, ParamOutline.declared, htext, ht, h.kind, h.modifiers,
        h.isSome_child?, isByReference_eq h]

/-! ### Functions and methods -/

/-- The part of a role, with that of the other tree. -/
theorem rel_child? (h : Edited n n') (hn : top.Within n) (hn' : top'.Within n') (role : String) :
    Option.Rel (fun c c' => PartEdited n.kind c c' ∧ c.role = role ∧ top.Within c ∧ top'.Within c')
      (n.child? role) (n'.child? role) := by
  refine rel_imp (rel_find? (q := (·.role == role)) (fun c c' hc => by rw [hc.1.role])
    (forall₂_and_mem h.children)) ?_
  rintro c c' ⟨⟨hpart, hc, hc'⟩, hrole⟩
  exact ⟨hpart, beq_iff_eq.mp hrole, hn.child hc, hn'.child hc'⟩

/-- The parts of some kinds, each with that of the other tree. -/
theorem rel_namedChildren (h : Edited n n') {p : String → Bool}
    (hp : p "compound_statement" = false) (hn : top.Within n) (hn' : top'.Within n') :
    List.Forall₂ (fun c c' => Edited c c' ∧ p c.kind = true ∧ top.Within c ∧ top'.Within c')
      (n.namedChildren.filter fun c => p c.kind) (n'.namedChildren.filter fun c => p c.kind) := by
  refine (rel_filter_and (fun c c' hc => by rw [hc.1.kind])
    (forall₂_and_mem h.namedChildren)).imp ?_
  rintro c c' ⟨hkind, hpart, hc, hc'⟩
  refine ⟨hpart.edited fun hbody => ?_, hkind, hn.child (Node.mem_children_of_mem_named hc),
    hn'.child (Node.mem_children_of_mem_named hc')⟩
  rw [hbody.kind, hp] at hkind
  cases hkind

/-- Parameters that are edited one by one are declared alike, at the same positions. -/
theorem parallel_readParameters (scope : Scope) {ns ns' : List Node}
    (h : List.Forall₂ (fun n n' => Edited n n' ∧ parameterKinds.contains n.kind = true ∧
      top.Within n ∧ top'.Within n') ns ns') (position : Nat) :
    Parallel (Excuse functions top top')
      (fun ps ps' => ps'.map ParamOutline.declared = ps.map ParamOutline.declared)
      (readParameters functions scope position ns)
      (readParameters functions scope position ns') := by
  induction h generalizing position with
  | nil => exact parallel_pure rfl
  | cons hn _ ih =>
    obtain ⟨hedited, hkind, hn, hn'⟩ := hn
    refine (parallel_readParameter scope position hedited hkind hn hn').bind fun p p' hp => ?_
    cases p with
    | none =>
      obtain rfl : p' = none := Option.map_eq_none_iff.mp hp
      exact ih position
    | some p =>
      obtain ⟨q, rfl, hq⟩ := Option.map_eq_some_iff.mp hp
      refine (ih (position + 1)).bind fun ps ps' hps => parallel_pure ?_
      rw [List.map_cons, List.map_cons, hq, hps]

/-- A declaration keeps its name. -/
theorem name?_eq (h : Edited n n') (hkind : Node.declaringKinds.contains n.kind = true) :
    n'.name? = n.name? := by
  have hrel := h.roleWord hkind "name" (by decide)
  unfold Node.name?
  generalize n.child? "name" = x, n'.child? "name" = x' at hrel ⊢
  cases hrel with
  | none => rfl
  | some htext => exact congrArg some htext

/-- The function is the same as declared. -/
theorem parallel_readFunction (scope : Scope) (owner : Option String) {c c' : Cursor}
    (h : Edited c.node c'.node) (hkind : Node.declaringKinds.contains c.node.kind = true)
    (hc : top.Within c.node) (hc' : top'.Within c'.node) :
    Parallel (Excuse functions top top')
      (fun f f' => f'.map FunctionOutline.declared = f.map FunctionOutline.declared)
      (readFunction functions scope owner c) (readFunction functions scope owner c') := by
  have hname := name?_eq h hkind
  unfold readFunction
  simp only [hname]
  cases c.node.name? with
  | none => exact parallel_pure rfl
  | some name =>
    have hreturn := h.roleWord hkind "return_type" (by decide)
    refine (parallel_readParameters scope ?_ 0).bind fun ps ps' hps => ?_
    · have hlist := rel_child? h hc hc' "parameters"
      generalize c.node.child? "parameters" = list, c'.node.child? "parameters" = list' at hlist ⊢
      cases hlist with
      | none => exact .nil
      | some hlist =>
        obtain ⟨hpart, hrole, hlist, hlist'⟩ := hlist
        refine rel_namedChildren (hpart.edited fun hbody => ?_) (by decide) hlist hlist'
        simp [hbody.role] at hrole
    · refine (parallel_declaredType scope hreturn).bind fun t t' ht => parallel_pure ?_
      simp only [Option.map_some, FunctionOutline.declared, hps, ht, h.modifiers]

/-! ### Members of classes -/

/-- What a parameter says about defaults plays no part in which properties a constructor makes. -/
theorem promotedProperties_declared (m : FunctionOutline) :
    promotedProperties m.declared = (promotedProperties m).map PropertyOutline.declared := by
  unfold promotedProperties
  have hname : m.declared.name = m.name := rfl
  rw [hname]
  split_ifs
  · rw [FunctionOutline.declared, List.filterMap_map, List.map_filterMap]
    refine List.filterMap_congr fun p _ => ?_
    cases hp : p.promoted <;> simp [ParamOutline.declared, PropertyOutline.declared, hp]
  · rfl

/-- A property is named by the same variable as before. -/
theorem rel_propertyName (h : Edited n n') (hkind : n.kind = "property_element")
    (hn : top.Within n) (hn' : top'.Within n') :
    Option.Rel
      (fun ve ve' : Node × Node =>
        ve'.1.text = ve.1.text ∧ top.Within ve.2 ∧ top'.Within ve'.2)
      (((n.child? "name").orElse fun _ => n.namedOf? ["variable_name"]).map (·, n))
      (((n'.child? "name").orElse fun _ => n'.namedOf? ["variable_name"]).map (·, n')) := by
  have hname := h.roleWord (by rw [hkind]; decide) "name" (by decide)
  have hvariable := rel_orElse hname (h.namedWord wordKinds_of_variable)
  generalize (n.child? "name").orElse (fun _ => n.namedOf? ["variable_name"]) = v,
    (n'.child? "name").orElse (fun _ => n'.namedOf? ["variable_name"]) = v' at hvariable ⊢
  cases hvariable with
  | none => exact .none
  | some htext => exact .some ⟨htext, hn, hn'⟩

/-- An edited property declares the same as before. -/
theorem parallel_readProperties (scope : Scope) {c c' : Cursor} (h : Edited c.node c'.node)
    (hkind : Node.declaringKinds.contains c.node.kind = true)
    (hc : top.Within c.node) (hc' : top'.Within c'.node) :
    Parallel (Excuse functions top top')
      (fun ps ps' => ps'.map PropertyOutline.declared = ps.map PropertyOutline.declared)
      (readProperties functions scope c) (readProperties functions scope c') := by
  have htype := h.roleWord hkind "type" (by decide)
  have helements := rel_namedChildren h (p := (· == "property_element")) (by decide) hc hc'
  -- an element is left out exactly if it has no name
  have hnamed := List.rel_filterMap
    (fun _ _ he => rel_propertyName he.1 (beq_iff_eq.mp he.2.1) he.2.2.1 he.2.2.2) helements
  refine (parallel_declaredType scope htype).bind fun t t' ht => ?_
  refine (Parallel.mapM (hnamed.imp fun ve ve' hve => ?_)).imp fun ps ps' h => map_eq_of_forall₂ h
  obtain ⟨htext, he, he'⟩ := hve
  refine (parallel_of_total (total_infer? ?_) (total_infer? ?_)).bind fun d d' _ => parallel_pure ?_
  · exact fun d hd => .inl (occurs_propertyDefault? top.closed_within he hd)
  · exact fun d hd => .inr (occurs_propertyDefault? top'.closed_within he' hd)
  · simp only [PropertyOutline.declared, htext, ht, h.modifiers]

/-- The values of constants have types, unless excused. -/
theorem total_readConstants (hn : ∀ d, n.Within d → top.Within d ∨ top'.Within d) :
    Total (Excuse functions top top') (readConstants functions n) := by
  refine Total.mapM fun nv hnv => ?_
  obtain ⟨e, he, hv⟩ := List.mem_filterMap.mp hnv
  have hwithin : n.Within e :=
    .child .root (Node.mem_children_of_mem_named (List.mem_filter.mp he).1)
  refine (total_infer (hn _ ?_)).bind fun t => total_pure _
  split at hv
  · next name second rest hparts =>
    rw [← Option.some.inj hv]
    exact occurs_constantValue n.closed_within hwithin hparts
  · cases hv

/-- The cases of an enumeration are read alike, unless excused. -/
theorem parallel_readCase (enumName : String) (h : Edited n n') (hn : top.Within n)
    (hn' : top'.Within n') :
    Parallel (Excuse functions top top') (fun _ _ => True) (readCase functions enumName n)
      (readCase functions enumName n') := by
  have hname := h.child? "name"
  have hvalue := rel_child? h hn hn' "value"
  unfold readCase Node.name?
  generalize n.child? "name" = name, n'.child? "name" = name' at hname ⊢
  generalize n.child? "value" = value, n'.child? "value" = value' at hvalue ⊢
  cases hname with
  | none => exact parallel_pure trivial
  | some _ =>
    cases hvalue with
    | none => exact (parallel_lift _).bind fun t t' _ => parallel_pure trivial
    | some hv =>
      obtain ⟨-, -, hv, hv'⟩ := hv
      refine (parallel_of_total (total_infer (.inl hv)) (total_infer (.inr hv'))).bind ?_
      intro t t' _
      exact parallel_pure trivial

/-- One more member of a class is the same as declared. -/
theorem parallel_readMember {cls cls' : ClassOutline} (hcls : cls'.declared = cls.declared)
    {k : String} {c c' : Cursor} (hpart : PartEdited k c.node c'.node) (hc : top.Within c.node)
    (hc' : top'.Within c'.node) :
    Parallel (Excuse functions top top') (fun cls cls' => cls'.declared = cls.declared)
      (readMember functions cls c) (readMember functions cls' c') := by
  have hscope : cls'.scope = cls.scope := (congrArg ClassOutline.scope hcls :)
  have hname : cls'.name = cls.name := (congrArg ClassOutline.name hcls :)
  have hedited : c.node.kind ≠ "compound_statement" → Edited c.node c'.node :=
    fun hkind => hpart.edited fun hbody => hkind hbody.kind
  simp only [ClassOutline.declared, ClassOutline.mk.injEq] at hcls ⊢
  unfold readMember
  rw [hpart.kind, hscope, hname]
  split
  · next hkind =>
    have hedited := hedited (by rw [hkind]; decide)
    refine (parallel_readFunction cls.scope (some cls.name) hedited
      (by rw [hkind]; decide) hc hc').bind
      fun m m' hm => ?_
    cases m with
    | none =>
      obtain rfl : m' = none := Option.map_eq_none_iff.mp hm
      exact parallel_pure (by simpa using hcls)
    | some m =>
      obtain ⟨m', rfl, hdeclared⟩ := Option.map_eq_some_iff.mp hm
      have hpromoted : (promotedProperties m').map PropertyOutline.declared
          = (promotedProperties m).map PropertyOutline.declared := by
        rw [← promotedProperties_declared, ← promotedProperties_declared, hdeclared]
      exact parallel_pure (by simp [hcls, hdeclared, hpromoted])
  · next hkind =>
    have hedited := hedited (by rw [hkind]; decide)
    refine (parallel_readProperties cls.scope hedited (by rw [hkind]; decide) hc hc').bind
      fun ps ps' hps => parallel_pure ?_
    simp [hcls, hps]
  · refine (parallel_of_total (total_readConstants ?_) (total_readConstants ?_)).bind
      fun ks ks' _ => parallel_pure ?_
    · exact fun d hd => .inl (hc.trans hd)
    · exact fun d hd => .inr (hc'.trans hd)
    · simp [hcls]
  · next hkind =>
    have hedited := hedited (by rw [hkind]; decide)
    refine (parallel_readCase cls.name hedited hc hc').bind fun k k' _ => parallel_pure ?_
    simp [hcls]
  · next hkind =>
    have hedited := hedited (by rw [hkind]; decide)
    exact parallel_pure (by simp [hcls, hedited.clauseNames])
  · exact parallel_pure (by simp [hcls])

/-! ### Classes -/

theorem declared_readClause (cls : ClassOutline) (n : Node) :
    (readClause cls n).declared = readClause cls.declared n := by
  have hkind : cls.declared.kind = cls.kind := rfl
  have hscope : cls.declared.scope = cls.scope := rfl
  unfold readClause
  simp only [hkind, hscope]
  split_ifs
  · rfl
  · cases n.clauseNames.map cls.scope.qualify <;> rfl
  · rfl
  · rfl

/-- An edited clause of a header says the same as before. -/
theorem readClause_eq {k : String} (hpart : PartEdited k n n') (cls : ClassOutline) :
    readClause cls n' = readClause cls n := by
  by_cases hn : n.kind = "compound_statement"
  · have hn' := hpart.kind.trans hn
    unfold readClause
    simp [hn, hn']
  · have hedited := hpart.edited fun hbody => hn hbody.kind
    unfold readClause
    rw [hedited.kind, hedited.clauseNames]

/-- The header is the same as declared, in the same scope. -/
theorem declared_classHeader {c c' : Cursor} (h : Edited c.node c'.node)
    (hscope : c'.scope = c.scope) (shortName : String) :
    (classHeader c' shortName).declared = (classHeader c shortName).declared := by
  have hfold : ∀ (cls : ClassOutline) (ns : List Node),
      (ns.foldl readClause cls).declared = ns.foldl readClause cls.declared := by
    intro cls ns
    induction ns generalizing cls with
    | nil => rfl
    | cons n ns ih => rw [List.foldl_cons, List.foldl_cons, ih, declared_readClause]
  have hclauses : ∀ cls : ClassOutline,
      c'.node.namedChildren.foldl readClause cls = c.node.namedChildren.foldl readClause cls := by
    have hchildren := h.namedChildren
    generalize c.node.namedChildren = ns, c'.node.namedChildren = ns' at hchildren
    induction hchildren with
    | nil => exact fun cls => rfl
    | cons hpart _ ih =>
      intro cls
      rw [List.foldl_cons, List.foldl_cons, readClause_eq hpart, ih]
  unfold classHeader
  simp only
  rw [hfold, hfold, hclauses]
  congr 1
  simp only [ClassOutline.declared, hscope, h.kind, h.modifiers]

/-- The members of an edited class are edited parts. -/
theorem rel_memberPlaces {c c' : Cursor} (h : Edited c.node c'.node)
    (hkind : c.node.kind ≠ "namespace_definition") (hc : top.Within c.node)
    (hc' : top'.Within c'.node) :
    List.Forall₂ (fun m m' => (∃ k, PartEdited k m.node m'.node) ∧ top.Within m.node ∧
      top'.Within m'.node) (memberPlaces c) (memberPlaces c') := by
  have hbody := rel_child? h hc hc' "body"
  unfold memberPlaces
  generalize c.node.child? "body" = body, c'.node.child? "body" = body' at hbody ⊢
  cases hbody with
  | none => exact .nil
  | some hbody =>
    obtain ⟨hpart, -, hbody, hbody'⟩ := hbody
    have hmembers := forall₂_and_mem (hpart.edited_of_ne hkind).namedChildren
    rw [← Cursor.map_node_namedChildren ⟨_, []⟩, ← Cursor.map_node_namedChildren ⟨_, []⟩,
      List.forall₂_map_left_iff, List.forall₂_map_right_iff] at hmembers
    refine hmembers.imp ?_
    rintro m m' ⟨hpart, hm, hm'⟩
    rw [Cursor.map_node_namedChildren] at hm hm'
    exact ⟨⟨_, hpart⟩, hbody.child (Node.mem_children_of_mem_named hm),
      hbody'.child (Node.mem_children_of_mem_named hm')⟩

/-- The class is the same as declared, in the same scope. -/
theorem parallel_readClass {c c' : Cursor} (h : Edited c.node c'.node) (hscope : c'.scope = c.scope)
    (hkind : Node.classKinds.contains c.node.kind = true) :
    Parallel (Excuse functions c.node c'.node)
      (fun cls cls' => cls'.map ClassOutline.declared = cls.map ClassOutline.declared)
      (readClass functions c) (readClass functions c') := by
  have hdeclaring : Node.declaringKinds.contains c.node.kind = true :=
    List.contains_iff_mem.mpr (List.mem_append_right _ (List.contains_iff_mem.mp hkind))
  have hne : c.node.kind ≠ "namespace_definition" := fun hne => by
    rw [hne] at hkind
    revert hkind
    decide
  unfold readClass
  rw [name?_eq h hdeclaring]
  cases c.node.name? with
  | none => exact parallel_pure rfl
  | some shortName =>
    refine Parallel.bind ?_ fun cls cls' hcls => parallel_pure (congrArg some hcls)
    refine Parallel.foldlM (rel_memberPlaces h hne .root .root) ?_
      (declared_classHeader h hscope shortName)
    rintro m m' ⟨⟨k, hpart⟩, hm, hm'⟩ cls cls' hcls
    exact parallel_readMember hcls hpart hm hm'

end Outline

end TypeFacts
