import TypeFacts.Proofs.Memo.Steady
import TypeFacts.Proofs.Text.Trim
import TypeFacts.Scope
import TypeFacts.Snapshot.Host

/-!
# Coherent records

A record repeats itself: a table lists values under names that the values have too, a full name is
made of a namespace and a short name, the kind of a class stands among its modifiers, and the
parameters of a function have positions. A record is coherent when these agree
(`ClassDecl.Coherent`, `FileReport.Coherent`).

What reflection describes is coherent, however the reflected parameters are arranged
(`ClassDecl.IsReflected.coherent`).
-/

namespace TypeFacts

/-! ### Conditions on records -/

/-- Values are listed under their own names. -/
def Table.Named {α : Type} (nameOf : α → String) (t : Table α) : Prop :=
  ∀ e ∈ t.entries, nameOf e.2 = e.1

/-- The modifiers have the word for the kind, unless it is a plain class, and for no other kind. -/
def ClassKind.Marks (kind : ClassKind) (modifiers : List String) : Prop :=
  ∀ k, k ≠ .cls → (k.word ∈ modifiers ↔ kind = k)

namespace FunctionDecl

/-- The positions of the parameters, in the order in which these are listed. -/
def positions (f : FunctionDecl) : List Nat := f.parameters.map (·.position)

/-- No parameter is listed before one of a lower position. -/
def Ordered (f : FunctionDecl) : Prop := f.positions.Pairwise (· ≤ ·)

/-- The positions of the parameters are 0, 1, 2 and so on. -/
def Numbered (f : FunctionDecl) : Prop := f.positions = List.range f.parameters.length

/-- Parameters that are numbered are in order. -/
theorem Numbered.ordered {f : FunctionDecl} (h : f.Numbered) : f.Ordered := by
  rw [Ordered, h]
  exact List.pairwise_le_range

end FunctionDecl

/-- The method is one of the class itself, and its parameters are numbered. -/
def MethodDecl.OwnedBy (m : MethodDecl) (className : String) : Prop :=
  m.className = className ∧ m.Numbered

/-- What the record says in more than one place agrees. -/
structure ClassDecl.Coherent (c : ClassDecl) : Prop where
  methods : c.methods.Named (·.name)
  properties : c.properties.Named (·.name)
  constants : c.constants.Named (·.name)
  name_eq : c.name = Scope.underNamespace c.ns c.shortName
  marks : c.kind.Marks c.modifiers
  ordered : ∀ m ∈ c.methods.values, m.Ordered

/-- What the report says in more than one place agrees, and the methods of each class are
its own. -/
structure FileReport.Coherent (r : FileReport) : Prop where
  classes : r.classes.Named (·.name)
  functions : r.functions.Named (·.name)
  coherent : ∀ c ∈ r.classes.values, c.Coherent
  owns : ∀ c ∈ r.classes.values, ∀ m ∈ c.methods.values, m.OwnedBy c.name
  numbered : ∀ f ∈ r.functions.values, f.Numbered

theorem Table.forall_values_ofList {α : Type} {P : α → Prop} {pairs : List (String × α)}
    (h : ∀ e ∈ pairs, P e.2) : ∀ x ∈ (ofList pairs).values, P x :=
  List.forall_mem_map.mpr fun e he => h e (mem_of_mem_entries_ofList he)

/-- A table is listed by names if its pairs are. -/
theorem Table.named_ofList {α : Type} {nameOf : α → String} {pairs : List (String × α)}
    (h : ∀ e ∈ pairs, nameOf e.2 = e.1) : (ofList pairs).Named nameOf :=
  fun e he => h e (mem_of_mem_entries_ofList he)

theorem ClassKind.marks_append {words : List String}
    (h : ∀ w ∈ words, w ∈ ["abstract", "final", "readonly"]) (kind : ClassKind) :
    kind.Marks (words ++ kind.modifier) := by
  intro k hk
  have hwords : k.word ∉ words := by
    intro hmem
    have hword := h k.word hmem
    cases k <;> revert hword <;> decide
  rw [List.mem_append, or_iff_right hwords]
  revert hk
  cases k <;> cases kind <;> decide

/-! ### Reflected functions -/

namespace ReflectedParam

theorem mem_insertSorted {p q : ReflectedParam} {ps : List ReflectedParam} :
    q ∈ insertSorted p ps ↔ q = p ∨ q ∈ ps := by
  induction ps with
  | nil => simp [insertSorted]
  | cons r ps ih =>
    by_cases hle : p.position ≤ r.position
    · rw [insertSorted, if_pos hle, List.mem_cons]
    · rw [insertSorted, if_neg hle, List.mem_cons, ih, List.mem_cons, or_left_comm]

/-- No parameter stands before one of a lower position. -/
abbrev Ascending (ps : List ReflectedParam) : Prop :=
  ps.Pairwise fun p q => p.position ≤ q.position

/-- A parameter put in its place keeps the positions ascending. -/
theorem Ascending.insertSorted (p : ReflectedParam) {ps : List ReflectedParam} (h : Ascending ps) :
    Ascending (insertSorted p ps) := by
  induction ps with
  | nil => exact List.pairwise_singleton _ p
  | cons r ps ih =>
    obtain ⟨hr, hps⟩ := List.pairwise_cons.mp h
    by_cases hle : p.position ≤ r.position
    · rw [ReflectedParam.insertSorted, if_pos hle]
      refine List.pairwise_cons.mpr ⟨fun q hq => ?_, h⟩
      rcases List.mem_cons.mp hq with rfl | hq
      · exact hle
      · exact Nat.le_trans hle (hr q hq)
    · rw [ReflectedParam.insertSorted, if_neg hle]
      refine List.pairwise_cons.mpr ⟨fun q hq => ?_, ih hps⟩
      rcases mem_insertSorted.mp hq with rfl | hq
      · omega
      · exact hr q hq

theorem ascending_sorted (ps : List ReflectedParam) : Ascending (sorted ps) := by
  induction ps with
  | nil => exact List.Pairwise.nil
  | cons p ps ih => exact ih.insertSorted p

theorem position_toDecl (p : ReflectedParam) : Yields p.toDecl (·.position = p.position) := by
  intro d hd
  obtain ⟨type, -, hd⟩ := bind_eq_ok.mp hd
  rw [← Except.ok.inj hd]

end ReflectedParam

/-- Reflected parameters come in the order of their positions. -/
theorem pairwise_reflectedParams (ps : List ReflectedParam) :
    Yields (reflectedParams ps) fun ds => (ds.map (·.position)).Pairwise (· ≤ ·) := by
  intro ds hds
  have hpositions : ds.map (·.position) = (ReflectedParam.sorted ps).map (·.position) :=
    Yields.mapM_map (fun p _ => p.position_toDecl) ds hds
  rw [hpositions, List.pairwise_map]
  exact ReflectedParam.ascending_sorted ps

/-- The record describes a reflected function. -/
def FunctionDecl.IsReflected (d : FunctionDecl) : Prop :=
  ∃ f : ReflectedFunction, f.toDecl = .ok d

/-- A reflected function has its parameters in order. -/
theorem FunctionDecl.IsReflected.ordered {d : FunctionDecl} (h : d.IsReflected) : d.Ordered := by
  obtain ⟨f, hf⟩ := h
  obtain ⟨parameters, hparameters, hf⟩ := bind_eq_ok.mp hf
  obtain ⟨returnType, -, hf⟩ := bind_eq_ok.mp hf
  obtain rfl := Except.ok.inj hf
  exact pairwise_reflectedParams f.parameters parameters hparameters

/-- So has a reflected method. -/
theorem ReflectedMethod.ordered_toDecl (m : ReflectedMethod) (className : String)
    (file : Option String) :
    Yields (m.toDecl className file) fun d => d.name = m.name ∧ d.Ordered := by
  intro d hd
  obtain ⟨parameters, hparameters, hd⟩ := bind_eq_ok.mp hd
  obtain ⟨returnType, -, hd⟩ := bind_eq_ok.mp hd
  obtain rfl := Except.ok.inj hd
  exact ⟨rfl, pairwise_reflectedParams m.parameters parameters hparameters⟩

theorem ReflectedProperty.name_toDecl (p : ReflectedProperty) :
    Yields p.toDecl (·.name = p.name) := by
  intro d hd
  obtain ⟨type, -, hd⟩ := bind_eq_ok.mp hd
  rw [← Except.ok.inj hd]

/-! ### Reflected classes -/

/-- A name without backslashes in front has something before its last backslash, if it has one. -/
theorem Text.underNamespace_of_cutAtLast {name : String} {before after : List Char}
    (h : cutAtLast '\\' (withoutBackslashes name).toList = some (before, after)) :
    withoutBackslashes name
      = Scope.underNamespace (String.ofList before) (String.ofList after) := by
  have hcut : (withoutBackslashes name).toList = before ++ '\\' :: after := eq_of_cutAtLast h
  have hbefore : before ≠ [] := by
    rintro rfl
    have hhead := List.head?_dropWhile_not (· == '\\') name.toList
    have hdrop : name.toList.dropWhile (· == '\\') = '\\' :: after := by
      simpa [withoutBackslashes, dropBackslashes] using hcut
    rw [hdrop] at hhead
    simp at hhead
  have hempty : (String.ofList before).isEmpty = false := by simpa using hbefore
  rw [Scope.underNamespace, hempty, ← String.toList_inj, hcut]
  simp

theorem mem_of_mem_flagged {flags : List (String × Bool)} {w : String} (h : w ∈ flagged flags) :
    w ∈ flags.map Prod.fst := by
  obtain ⟨e, he, rfl⟩ := List.mem_map.mp h
  exact List.mem_map_of_mem (List.mem_filter.mp he).1

/-- The record describes a reflected class. -/
def ClassDecl.IsReflected (d : ClassDecl) : Prop :=
  ∃ c : ReflectedClass, c.toDecl = .ok d

/-- Whatever reflection says of a class, its description is coherent. -/
theorem ClassDecl.IsReflected.coherent {d : ClassDecl} (h : d.IsReflected) : d.Coherent := by
  obtain ⟨c, hc⟩ := h
  obtain ⟨methods, hmethods, hc⟩ := bind_eq_ok.mp hc
  obtain ⟨properties, hproperties, hc⟩ := bind_eq_ok.mp hc
  obtain rfl := Except.ok.inj hc
  have hmethods : ∀ e ∈ methods, e.2.name = e.1 ∧ e.2.Ordered :=
    Yields.mapM (fun m _ => (m.ordered_toDecl _ _).bind fun d hd => yields_ok hd) methods hmethods
  have hproperties : ∀ e ∈ properties, e.2.name = e.1 :=
    Yields.mapM (fun p _ => p.name_toDecl.bind fun d hd => yields_ok hd) properties hproperties
  exact {
    methods := Table.named_ofList fun e he => (hmethods e he).1
    properties := Table.named_ofList hproperties
    constants := Table.named_ofList (List.forall_mem_map.mpr fun k _ => rfl)
    name_eq := by
      cases hcut : Text.cutAtLast '\\' (Text.withoutBackslashes c.name).toList with
      | none => rfl
      | some cut => exact Text.underNamespace_of_cutAtLast hcut
    marks := ClassKind.marks_append (fun w hw => by simpa using mem_of_mem_flagged hw) c.kind
    ordered := Table.forall_values_ofList fun e he => (hmethods e he).2 }

/-- What a host describes was reflected. -/
theorem Host.isReflected_makeClass (h : Host) (name : String) :
    Yields (h.makeClass name) ClassDecl.IsReflected := by
  unfold makeClass
  cases h.class? name with
  | none => exact yields_error _
  | some c => exact fun d hd => ⟨c, mapError_eq_ok.mp hd⟩

theorem Host.isReflected_makeFunction (h : Host) (name : String) :
    Yields (h.makeFunction name) FunctionDecl.IsReflected := by
  unfold makeFunction
  cases h.function? name with
  | none => exact yields_error _
  | some f => exact fun d hd => ⟨f, mapError_eq_ok.mp hd⟩

end TypeFacts
