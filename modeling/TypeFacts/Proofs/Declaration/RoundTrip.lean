import TypeFacts.Declaration.Json
import TypeFacts.Proofs.Json.RoundTrip
import TypeFacts.Proofs.Ty.Stored

/-!
# Reading stored declarations

A class or a file report is read back from its text, with the tables in the order in which they were
written and whatever the order in which the members of unions were listed
(`ofText_text_of_listing`). The order of members is free because a record may hold listings of types
instead of the types (`ClassDecl.mapTypes`); what is read is the record with the types themselves.

What can be stored is bounded, and the bounds are exact: the limits on nesting must admit every
chain of forms of every type, and no whole number may have more than `Number.digitLimit` digits
(`Limits.Admit`).
-/

namespace TypeFacts

/-! ### Records up to the listing of types -/

section MapTypes

variable (f : Ty → Ty)

/-- The parameter with every type replaced. -/
def ParamDecl.mapTypes (p : ParamDecl) : ParamDecl :=
  { p with type := p.type.map f, defaultValue := p.defaultValue.map f }

/-- The function with every type replaced. -/
def FunctionDecl.mapTypes (g : FunctionDecl) : FunctionDecl :=
  { g with parameters := g.parameters.map (ParamDecl.mapTypes f), returnType := g.returnType.map f }

/-- The method with every type replaced. -/
def MethodDecl.mapTypes (m : MethodDecl) : MethodDecl :=
  { m with toFunctionDecl := m.toFunctionDecl.mapTypes f }

/-- The property with every type replaced. -/
def PropertyDecl.mapTypes (p : PropertyDecl) : PropertyDecl :=
  { p with type := p.type.map f, defaultValue := p.defaultValue.map f }

/-- The constant with its type replaced. -/
def ConstantDecl.mapTypes (c : ConstantDecl) : ConstantDecl :=
  { c with type := c.type.map f }

/-- The class with every type replaced. -/
def ClassDecl.mapTypes (c : ClassDecl) : ClassDecl :=
  { c with
    methods := c.methods.mapValues (MethodDecl.mapTypes f)
    properties := c.properties.mapValues (PropertyDecl.mapTypes f)
    constants := c.constants.mapValues (ConstantDecl.mapTypes f) }

/-- The report with every type replaced. -/
def FileReport.mapTypes (r : FileReport) : FileReport :=
  { r with
    classes := r.classes.mapValues (ClassDecl.mapTypes f)
    functions := r.functions.mapValues (FunctionDecl.mapTypes f) }

end MapTypes

@[simp] theorem ParamDecl.types_mapTypes (f : Ty → Ty) (p : ParamDecl) :
    (p.mapTypes f).types = p.types.map f := by
  simp [ParamDecl.types, ParamDecl.mapTypes, Option.toList_map]

@[simp] theorem FunctionDecl.types_mapTypes (f : Ty → Ty) (g : FunctionDecl) :
    (g.mapTypes f).types = g.types.map f := by
  simp [FunctionDecl.types, FunctionDecl.mapTypes, Option.toList_map, List.flatMap_map,
    List.map_flatMap]

@[simp] theorem PropertyDecl.types_mapTypes (f : Ty → Ty) (p : PropertyDecl) :
    (p.mapTypes f).types = p.types.map f := by
  simp [PropertyDecl.types, PropertyDecl.mapTypes, Option.toList_map]

@[simp] theorem ClassDecl.types_mapTypes (f : Ty → Ty) (c : ClassDecl) :
    (c.mapTypes f).types = c.types.map f := by
  simp [ClassDecl.types, ClassDecl.mapTypes, MethodDecl.mapTypes, ConstantDecl.mapTypes,
    Option.toList_map, List.flatMap_map, List.map_flatMap]

@[simp] theorem FileReport.types_mapTypes (f : Ty → Ty) (r : FileReport) :
    (r.mapTypes f).types = r.types.map f := by
  simp [FileReport.types, FileReport.mapTypes, List.flatMap_map, List.map_flatMap]

/-! ### What can be stored -/

/-- The whole numbers of a function, without their signs. -/
def FunctionDecl.numbers (f : FunctionDecl) : List Nat :=
  f.parameters.map (·.position) ++ f.line.toList.map Int.natAbs

/-- The whole numbers of a class, without their signs. -/
def ClassDecl.numbers (c : ClassDecl) : List Nat :=
  c.methods.values.flatMap (·.toFunctionDecl.numbers) ++ c.line.toList.map Int.natAbs

/-- The whole numbers of a report, without their signs. -/
def FileReport.numbers (r : FileReport) : List Nat :=
  r.classes.values.flatMap ClassDecl.numbers ++ r.functions.values.flatMap FunctionDecl.numbers ++
    r.errors.flatMap fun e => [e.line, e.column]

/-- Classes with valid types. -/
def ClassDecl.Valid (c : ClassDecl) : Prop :=
  ∀ t ∈ c.types, t.Valid

/-- Reports with valid types, whose faults have lines and columns that are counted from one. -/
structure FileReport.Valid (r : FileReport) : Prop where
  types : ∀ t ∈ r.types, t.Valid
  errors : ∀ e ∈ r.errors, 1 ≤ e.line ∧ 1 ≤ e.column

/-- A record with these types and whole numbers is neither too deep nor too long, for reading or
for writing. -/
structure Limits.Admit (limits : Limits) (types : List Ty) (numbers : List Nat) : Prop where
  reads : ∀ t ∈ types, t.Admitted limits.reads []
  writes : ∀ t ∈ types, t.Admitted limits.writes []
  digits : ∀ n ∈ numbers, (Number.natDigits n).length ≤ Number.digitLimit

/-- What is admitted does not depend on the order in which members are listed. -/
theorem Limits.admit_normal {limits : Limits} {types : List Ty} {numbers : List Nat} :
    limits.Admit (types.map Ty.normal) numbers ↔ limits.Admit types numbers := by
  have hchains : ∀ admits : List Ty.Form → Bool,
      (∀ t ∈ types.map Ty.normal, t.Admitted admits []) ↔ ∀ t ∈ types, t.Admitted admits [] := by
    intro admits
    rw [List.forall_mem_map]
    exact forall₂_congr fun t _ => t.admitted_normal []
  exact ⟨fun h => ⟨(hchains _).mp h.reads, (hchains _).mp h.writes, h.digits⟩,
    fun h => ⟨(hchains _).mpr h.reads, (hchains _).mpr h.writes, h.digits⟩⟩

/-! ### A record lists its own types -/

section NormalTypes

/-- A type that is there and valid is its own listing. -/
theorem map_normal_eq_self {o : Option Ty} (h : ∀ t ∈ o.toList, t.Valid) : o.map Ty.normal = o := by
  cases o with
  | none => rfl
  | some t => rw [Option.map_some, (h t List.mem_cons_self).normal_eq]

theorem list_map_eq_self {α : Type} {f : α → α} {xs : List α} (h : ∀ x ∈ xs, f x = x) :
    xs.map f = xs := by
  conv_rhs => rw [← List.map_id xs]
  exact List.map_congr_left h

/-- A table stays as it is if a function changes none of its values. -/
theorem Table.mapValues_eq_self {α : Type} {f : α → α} {t : Table α} (h : ∀ x ∈ t.values, f x = x) :
    t.mapValues f = t :=
  Table.ext_entries <| list_map_eq_self fun e he => by
    rw [h e.2 (List.mem_map_of_mem he)]

/-- A parameter with valid types lists its own types. -/
theorem ParamDecl.mapTypes_normal {p : ParamDecl} (h : ∀ t ∈ p.types, t.Valid) :
    p.mapTypes Ty.normal = p := by
  obtain ⟨htype, hdefault⟩ := List.forall_mem_append.mp h
  rw [ParamDecl.mapTypes, map_normal_eq_self htype, map_normal_eq_self hdefault]

/-- A function with valid types lists its own types. -/
theorem FunctionDecl.mapTypes_normal {f : FunctionDecl} (h : ∀ t ∈ f.types, t.Valid) :
    f.mapTypes Ty.normal = f := by
  obtain ⟨hparameters, hreturn⟩ := List.forall_mem_append.mp h
  rw [FunctionDecl.mapTypes, map_normal_eq_self hreturn, list_map_eq_self fun p hp =>
    ParamDecl.mapTypes_normal fun t ht => hparameters t (List.mem_flatMap_of_mem hp ht)]

/-- A property with valid types lists its own types. -/
theorem PropertyDecl.mapTypes_normal {p : PropertyDecl} (h : ∀ t ∈ p.types, t.Valid) :
    p.mapTypes Ty.normal = p := by
  obtain ⟨htype, hdefault⟩ := List.forall_mem_append.mp h
  rw [PropertyDecl.mapTypes, map_normal_eq_self htype, map_normal_eq_self hdefault]

/-- A class is one of its own listings. -/
theorem ClassDecl.mapTypes_normal {c : ClassDecl} (h : c.Valid) : c.mapTypes Ty.normal = c := by
  obtain ⟨hmembers, hconstants⟩ := List.forall_mem_append.mp h
  obtain ⟨hmethods, hproperties⟩ := List.forall_mem_append.mp hmembers
  have hmethod : ∀ m ∈ c.methods.values, m.mapTypes Ty.normal = m := fun m hm => by
    rw [MethodDecl.mapTypes, FunctionDecl.mapTypes_normal fun t ht =>
      hmethods t (List.mem_flatMap_of_mem hm ht)]
  have hproperty : ∀ p ∈ c.properties.values, p.mapTypes Ty.normal = p := fun p hp =>
    PropertyDecl.mapTypes_normal fun t ht => hproperties t (List.mem_flatMap_of_mem hp ht)
  have hconstant : ∀ k ∈ c.constants.values, k.mapTypes Ty.normal = k := fun k hk => by
    rw [ConstantDecl.mapTypes, map_normal_eq_self fun t ht =>
      hconstants t (List.mem_flatMap_of_mem hk ht)]
  rw [ClassDecl.mapTypes, Table.mapValues_eq_self hmethod, Table.mapValues_eq_self hproperty,
    Table.mapValues_eq_self hconstant]

/-- A report is one of its own listings. -/
theorem FileReport.mapTypes_normal {r : FileReport} (h : ∀ t ∈ r.types, t.Valid) :
    r.mapTypes Ty.normal = r := by
  obtain ⟨hclasses, hfunctions⟩ := List.forall_mem_append.mp h
  have hclass : ∀ c ∈ r.classes.values, c.mapTypes Ty.normal = c := fun c hc =>
    ClassDecl.mapTypes_normal fun t ht => hclasses t (List.mem_flatMap_of_mem hc ht)
  have hfunction : ∀ f ∈ r.functions.values, f.mapTypes Ty.normal = f := fun f hf =>
    FunctionDecl.mapTypes_normal fun t ht => hfunctions t (List.mem_flatMap_of_mem hf ht)
  rw [FileReport.mapTypes, Table.mapValues_eq_self hclass, Table.mapValues_eq_self hfunction]

end NormalTypes

/-! ### Checks of written fields -/

namespace Checked

variable {α β : Type}

@[simp] theorem text_str (s : String) : text (.str s) = ok s := rfl

@[simp] theorem bool_bool (b : Bool) : bool (.bool b) = ok b := rfl

@[simp] theorem text_ofText? (o : Option String) : nullable text (.ofText? o) = ok o := by
  cases o <;> rfl

@[simp] theorem int_ofInt? (o : Option Int) : nullable int (.ofInt? o) = ok o := by
  cases o <;> rfl

@[simp] theorem visibility_word (v : Visibility) : visibility (.str v.word) = ok v := by
  cases v <;> rfl

@[simp] theorem visibility_ofText? (o : Option Visibility) :
    nullable visibility (.ofText? (o.map (·.word))) = ok o := by
  cases o with
  | none => rfl
  | some v => cases v <;> rfl

@[simp] theorem classKind_word (k : ClassKind) : classKind (.str k.word) = ok k := by
  cases k <;> rfl

/-- A written list is read item by item. -/
theorem list_map {check : Json → Checked β} {f : α → Json} {g : α → β} {xs : List α}
    (h : ∀ x ∈ xs, check (f x) = ok (g x)) : list check (.arr (xs.map f)) = ok (xs.map g) :=
  all_itemChecks h

@[simp] theorem list_ofTexts (texts : List String) : list text (.ofTexts texts) = ok texts := by
  have h : list text (.arr (texts.map Json.str)) = ok (texts.map id) := list_map fun _ _ => rfl
  rwa [List.map_id] at h

/-- A number that is large enough passes the check for numbers from a least one on. -/
theorem intFrom_int {least n : Nat} (h : least ≤ n) : intFrom least (.int n) = ok n := by
  have hnot : ¬ (n : Int) < least := by omega
  simp [intFrom, int, andThen, hnot]

/-- Entries whose values all pass their check are read one by one. -/
theorem all_entryChecks {check : Json → Checked β} {f : α → Json} {g : α → β} :
    ∀ {es : List (String × α)}, (∀ e ∈ es, check (f e.2) = ok (g e.2)) →
      all (entryChecks check (es.map fun e => (e.1, f e.2))) = ok (es.map fun e => (e.1, g e.2))
  | [], _ => rfl
  | (name, x) :: es, h => by
    have ih := all_entryChecks fun e he => h e (List.mem_cons_of_mem _ he)
    have hx : check (f x) = ok (g x) := h (name, x) List.mem_cons_self
    simp only [List.map_cons, entryChecks, all, hx, ih]
    rfl

/-- A written table is read entry by entry, in the order in which it was written. -/
theorem table_toJson {check : Json → Checked β} {f : α → Json} {g : α → β} {t : Table α}
    (h : ∀ x ∈ t.values, check (f x) = ok (g x)) :
    table check (t.toJson f) = ok (t.mapValues g) := by
  have hall : all (entryChecks check (t.entries.map fun e => (e.1, f e.2)))
      = ok (t.mapValues g).entries :=
    all_entryChecks fun e he => h e.2 (List.mem_map_of_mem he)
  rw [table, Table.toJson, entries, hall]
  exact congrArg ok (Table.ofList_entries _)

/-- A field with a default fails when what is written in it does. -/
theorem Fails.optional {name : String} {default : α} {check : Json → Checked α}
    {fields : List (String × Json)} {j : Json} (hget : Pairs.get? name fields = some j)
    (h : (check j).Fails) : (Checked.optional name default check fields).Fails := by
  simp only [Checked.optional, hget]
  exact h.within name

/-- A written list fails when one of its items does. -/
theorem fails_list_map {check : Json → Checked β} {f : α → Json} {x : α} {xs : List α} (hx : x ∈ xs)
    (h : (check (f x)).Fails) : (list check (.arr (xs.map f))).Fails :=
  fails_all_itemChecks h (List.mem_map_of_mem hx)

/-- One entry that fails makes the whole row of entries fail. -/
theorem fails_all_entryChecks {check : Json → Checked β} {name : String} {j : Json}
    (h : (check j).Fails) :
    ∀ {fields : List (String × Json)}, (name, j) ∈ fields → (all (entryChecks check fields)).Fails
  | (n, k) :: fields, hmem => by
    rcases List.mem_cons.mp hmem with heq | hmem
    · cases heq
      exact fails_all_of_mem (Fails.within (h.map _) _) List.mem_cons_self
    · exact Fails.seq_right (fails_all_entryChecks h hmem) _

/-- A written table fails when one of its values does. -/
theorem fails_table_toJson {check : Json → Checked β} {f : α → Json} {x : α} {t : Table α}
    (hx : x ∈ t.values) (h : (check (f x)).Fails) : (table check (t.toJson f)).Fails := by
  obtain ⟨⟨name, y⟩, he, rfl⟩ := List.mem_map.mp hx
  have hentry : (name, f y) ∈ t.entries.map fun e => (e.1, f e.2) :=
    List.mem_map_of_mem (f := fun e : String × α => (e.1, f e.2)) he
  exact (fails_all_entryChecks h hentry).map Table.ofList

end Checked

/-! ### Records

The fields of a written record are found by their names. Where the types of the record are read,
each field passes its check and the values make the record again; where one of the types is not, the
field that has it fails, and with it the record. -/

namespace Checked

variable {limits : Limits} {t : Ty}

/-- An optional type is read back if the type is. -/
theorem type?_toJson? {o : Option Ty}
    (h : ∀ t ∈ o.toList, Ty.check t.toJson limits = .ok t.normal) :
    type? limits (Ty.toJson? o) = ok (o.map Ty.normal) := by
  cases o with
  | none => rfl
  | some t =>
    rw [type?, Ty.toJson?, Ty.nullable_toJson, h t List.mem_cons_self]
    rfl

/-- A type that is refused is refused in an optional field, too. -/
theorem fails_type?_toJson? {o : Option Ty} (ht : t ∈ o.toList)
    (h : (Ty.check t.toJson limits).Fails) : (type? limits (Ty.toJson? o)).Fails := by
  cases o with
  | none => cases ht
  | some u =>
    obtain rfl := List.mem_singleton.mp ht
    rw [type?, Ty.toJson?, Ty.nullable_toJson]
    exact h.map some

/-- A parameter is read back from its fields as soon as its types are. -/
theorem paramDecl_toJson {w : ParamDecl}
    (h : ∀ t ∈ w.types, Ty.check t.toJson limits = .ok t.normal) :
    paramDecl limits w.toJson = ok (w.mapTypes Ty.normal) := by
  obtain ⟨htypes, hdefaults⟩ := List.forall_mem_append.mp h
  have htype := type?_toJson? htypes
  have hdefault := type?_toJson? hdefaults
  have hposition : intFrom 0 (.int w.position) = ok w.position := intFrom_int (Nat.zero_le _)
  simp [paramDecl, ParamDecl.toJson, record, required, Checked.optional, Pairs.get?, htype,
    hdefault,
    hposition, ParamDecl.mapTypes]

/-- A parameter is refused as soon as one of its types is. -/
theorem fails_paramDecl_toJson {w : ParamDecl} (ht : t ∈ w.types)
    (h : (Ty.check t.toJson limits).Fails) : (paramDecl limits w.toJson).Fails := by
  rw [paramDecl, ParamDecl.toJson, record]
  rcases List.mem_append.mp ht with ht | ht
  · iterate 6 apply Fails.seq_left
    exact (Fails.optional (by rfl) (fails_type?_toJson? ht h)).seq_right _
  · iterate 2 apply Fails.seq_left
    exact (Fails.optional (by rfl) (fails_type?_toJson? ht h)).seq_right _

/-- Fields behind those of a function do not matter. -/
theorem functionFields_jsonFields {w : FunctionDecl}
    (h : ∀ t ∈ w.types, Ty.check t.toJson limits = .ok t.normal) (more : List (String × Json)) :
    functionFields limits (w.jsonFields ++ more) = ok (w.mapTypes Ty.normal) := by
  obtain ⟨htypes, hreturns⟩ := List.forall_mem_append.mp h
  have hparameters : list (paramDecl limits) (.arr (w.parameters.map ParamDecl.toJson))
      = ok (w.parameters.map (ParamDecl.mapTypes Ty.normal)) :=
    list_map fun p hp => paramDecl_toJson fun t ht => htypes t (List.mem_flatMap_of_mem hp ht)
  have hreturn := type?_toJson? hreturns
  simp [functionFields, FunctionDecl.jsonFields, required, Checked.optional, Pairs.get?,
    hparameters,
    hreturn, FunctionDecl.mapTypes]

/-- A refused type refuses the fields of a function, whatever fields come behind them. -/
theorem fails_functionFields_jsonFields {w : FunctionDecl} (ht : t ∈ w.types)
    (h : (Ty.check t.toJson limits).Fails) (more : List (String × Json)) :
    (functionFields limits (w.jsonFields ++ more)).Fails := by
  rw [functionFields]
  rcases List.mem_append.mp ht with ht | ht
  · obtain ⟨p, hp, htp⟩ := List.mem_flatMap.mp ht
    iterate 5 apply Fails.seq_left
    refine (Fails.optional (by rfl) (fails_list_map hp ?_)).seq_right _
    exact fails_paramDecl_toJson htp h
  · iterate 4 apply Fails.seq_left
    exact (Fails.optional (by rfl) (fails_type?_toJson? ht h)).seq_right _

/-- A function is read back from its fields as soon as its types are. -/
theorem functionDecl_toJson {w : FunctionDecl}
    (h : ∀ t ∈ w.types, Ty.check t.toJson limits = .ok t.normal) :
    functionDecl limits w.toJson = ok (w.mapTypes Ty.normal) := by
  have hfields := functionFields_jsonFields h []
  rwa [List.append_nil] at hfields

theorem fails_functionDecl_toJson {w : FunctionDecl} (ht : t ∈ w.types)
    (h : (Ty.check t.toJson limits).Fails) : (functionDecl limits w.toJson).Fails := by
  have hfields := fails_functionFields_jsonFields ht h []
  rwa [List.append_nil] at hfields

/-- A method is read back like a function, with its own fields behind those of the function. -/
theorem methodDecl_toJson {w : MethodDecl}
    (h : ∀ t ∈ w.toFunctionDecl.types, Ty.check t.toJson limits = .ok t.normal) :
    methodDecl limits w.toJson = ok (w.mapTypes Ty.normal) := by
  have hfields := functionFields_jsonFields h [("class_name", .str w.className),
    ("visibility", .str w.visibility.word), ("modifiers", .ofTexts w.modifiers)]
  rw [methodDecl, MethodDecl.toJson, record, hfields]
  simp [FunctionDecl.jsonFields, required, Checked.optional, Pairs.get?, MethodDecl.mapTypes]

theorem fails_methodDecl_toJson {w : MethodDecl} (ht : t ∈ w.toFunctionDecl.types)
    (h : (Ty.check t.toJson limits).Fails) : (methodDecl limits w.toJson).Fails := by
  rw [methodDecl, MethodDecl.toJson, record]
  iterate 3 apply Fails.seq_left
  exact (fails_functionFields_jsonFields ht h _).map MethodDecl.mk

/-- A property is read back from its fields as soon as its type is. -/
theorem propertyDecl_toJson {w : PropertyDecl}
    (h : ∀ t ∈ w.types, Ty.check t.toJson limits = .ok t.normal) :
    propertyDecl limits w.toJson = ok (w.mapTypes Ty.normal) := by
  obtain ⟨htypes, hdefaults⟩ := List.forall_mem_append.mp h
  have htype := type?_toJson? htypes
  have hdefault := type?_toJson? hdefaults
  simp [propertyDecl, PropertyDecl.toJson, record, required, Checked.optional, Pairs.get?, htype,
    hdefault, PropertyDecl.mapTypes]

theorem fails_propertyDecl_toJson {w : PropertyDecl} (ht : t ∈ w.types)
    (h : (Ty.check t.toJson limits).Fails) : (propertyDecl limits w.toJson).Fails := by
  rw [propertyDecl, PropertyDecl.toJson, record]
  rcases List.mem_append.mp ht with ht | ht
  · iterate 2 apply Fails.seq_left
    exact (Fails.optional (by rfl) (fails_type?_toJson? ht h)).seq_right _
  · apply Fails.seq_left
    exact (Fails.optional (by rfl) (fails_type?_toJson? ht h)).seq_right _

/-- A constant is read back from its fields as soon as its type is. -/
theorem constantDecl_toJson {w : ConstantDecl}
    (h : ∀ t ∈ w.type.toList, Ty.check t.toJson limits = .ok t.normal) :
    constantDecl limits w.toJson = ok (w.mapTypes Ty.normal) := by
  have htype := type?_toJson? h
  simp [constantDecl, ConstantDecl.toJson, record, required, Checked.optional, Pairs.get?, htype,
    ConstantDecl.mapTypes]

theorem fails_constantDecl_toJson {w : ConstantDecl} (ht : t ∈ w.type.toList)
    (h : (Ty.check t.toJson limits).Fails) : (constantDecl limits w.toJson).Fails := by
  rw [constantDecl, ConstantDecl.toJson, record]
  apply Fails.seq_left
  exact (Fails.optional (by rfl) (fails_type?_toJson? ht h)).seq_right _

/-- A written class is read as the class that it lists, where its types are read. -/
theorem classDecl_toJson {w : ClassDecl}
    (h : ∀ t ∈ w.types, Ty.check t.toJson limits = .ok t.normal) :
    classDecl limits w.toJson = ok (w.mapTypes Ty.normal) := by
  obtain ⟨hmembers, hothers⟩ := List.forall_mem_append.mp h
  obtain ⟨hfunctions, hfields⟩ := List.forall_mem_append.mp hmembers
  have hmethods : table (methodDecl limits) (w.methods.toJson MethodDecl.toJson)
      = ok (w.methods.mapValues (MethodDecl.mapTypes Ty.normal)) :=
    table_toJson fun m hm =>
      methodDecl_toJson fun t ht => hfunctions t (List.mem_flatMap_of_mem hm ht)
  have hproperties : table (propertyDecl limits) (w.properties.toJson PropertyDecl.toJson)
      = ok (w.properties.mapValues (PropertyDecl.mapTypes Ty.normal)) :=
    table_toJson fun p hp =>
      propertyDecl_toJson fun t ht => hfields t (List.mem_flatMap_of_mem hp ht)
  have hconstants : table (constantDecl limits) (w.constants.toJson ConstantDecl.toJson)
      = ok (w.constants.mapValues (ConstantDecl.mapTypes Ty.normal)) :=
    table_toJson fun k hk =>
      constantDecl_toJson fun t ht => hothers t (List.mem_flatMap_of_mem hk ht)
  simp [classDecl, ClassDecl.toJson, record, required, Checked.optional, Pairs.get?, hmethods,
    hproperties, hconstants, ClassDecl.mapTypes]

/-- A written class is not read where one of its types is not. -/
theorem fails_classDecl_toJson {w : ClassDecl} (ht : t ∈ w.types)
    (h : (Ty.check t.toJson limits).Fails) : (classDecl limits w.toJson).Fails := by
  rw [classDecl, ClassDecl.toJson, record]
  rcases List.mem_append.mp ht with ht | ht
  · rcases List.mem_append.mp ht with ht | ht
    · obtain ⟨m, hm, htm⟩ := List.mem_flatMap.mp ht
      iterate 5 apply Fails.seq_left
      refine (Fails.optional (by rfl) (fails_table_toJson hm ?_)).seq_right _
      exact fails_methodDecl_toJson htm h
    · obtain ⟨p, hp, htp⟩ := List.mem_flatMap.mp ht
      iterate 4 apply Fails.seq_left
      refine (Fails.optional (by rfl) (fails_table_toJson hp ?_)).seq_right _
      exact fails_propertyDecl_toJson htp h
  · obtain ⟨k, hk, htk⟩ := List.mem_flatMap.mp ht
    iterate 3 apply Fails.seq_left
    refine (Fails.optional (by rfl) (fails_table_toJson hk ?_)).seq_right _
    exact fails_constantDecl_toJson htk h

/-- A fault in the source is read back if it has a line and a column to stand in. -/
theorem sourceFault_toJson {e : SourceFault} (h : 1 ≤ e.line ∧ 1 ≤ e.column) :
    sourceFault e.toJson = ok e := by
  have hline := intFrom_int h.1
  have hcolumn := intFrom_int h.2
  simp [sourceFault, SourceFault.toJson, record, required, Pairs.get?, hline, hcolumn]

/-- A written report is read as the report that it lists, where its types are read. -/
theorem fileReport_toJson {w : FileReport}
    (h : ∀ t ∈ w.types, Ty.check t.toJson limits = .ok t.normal)
    (hfaults : ∀ e ∈ w.errors, 1 ≤ e.line ∧ 1 ≤ e.column) :
    fileReport limits w.toJson = ok (w.mapTypes Ty.normal) := by
  obtain ⟨hmembers, hothers⟩ := List.forall_mem_append.mp h
  have hclasses : table (classDecl limits) (w.classes.toJson ClassDecl.toJson)
      = ok (w.classes.mapValues (ClassDecl.mapTypes Ty.normal)) :=
    table_toJson fun c hc => classDecl_toJson fun t ht => hmembers t (List.mem_flatMap_of_mem hc ht)
  have hfunctions : table (functionDecl limits) (w.functions.toJson FunctionDecl.toJson)
      = ok (w.functions.mapValues (FunctionDecl.mapTypes Ty.normal)) :=
    table_toJson fun f hf =>
      functionDecl_toJson fun t ht => hothers t (List.mem_flatMap_of_mem hf ht)
  have herrors : list sourceFault (.arr (w.errors.map SourceFault.toJson)) = ok (w.errors.map id) :=
    list_map fun e he => sourceFault_toJson (hfaults e he)
  rw [List.map_id] at herrors
  simp [fileReport, FileReport.toJson, record, required, Checked.optional, Pairs.get?, hclasses,
    hfunctions, herrors, FileReport.mapTypes]

/-- A written report is not read where one of its types is not. -/
theorem fails_fileReport_toJson {w : FileReport} (ht : t ∈ w.types)
    (h : (Ty.check t.toJson limits).Fails) : (fileReport limits w.toJson).Fails := by
  rw [fileReport, FileReport.toJson, record]
  rcases List.mem_append.mp ht with ht | ht
  · obtain ⟨c, hc, htc⟩ := List.mem_flatMap.mp ht
    iterate 2 apply Fails.seq_left
    refine (Fails.optional (by rfl) (fails_table_toJson hc ?_)).seq_right _
    exact fails_classDecl_toJson htc h
  · obtain ⟨f, hf, htf⟩ := List.mem_flatMap.mp ht
    apply Fails.seq_left
    refine (Fails.optional (by rfl) (fails_table_toJson hf ?_)).seq_right _
    exact fails_functionDecl_toJson htf h

end Checked

/-! ### Plain values -/

section Plain

open Json (Plain)

attribute [simp] Plain.null Plain.bool Plain.int Plain.str

@[simp] theorem plain_ofText? (o : Option String) : Plain (.ofText? o) := by
  cases o with
  | none => exact .null
  | some s => exact .str s

@[simp] theorem plain_ofInt? (o : Option Int) : Plain (.ofInt? o) := by
  cases o with
  | none => exact .null
  | some i => exact .int i

/-- A list of plain values is plain. -/
theorem plain_map {α : Type} {f : α → Json} {xs : List α} (h : ∀ x ∈ xs, Plain (f x)) :
    Plain (.arr (xs.map f)) := by
  refine .arr fun j hj => ?_
  obtain ⟨x, hx, rfl⟩ := List.mem_map.mp hj
  exact h x hx

@[simp] theorem plain_ofTexts (texts : List String) : Plain (.ofTexts texts) :=
  plain_map fun s _ => .str s

/-- A table of plain values is plain, because its names are all different. -/
theorem plain_table {α : Type} {f : α → Json} {t : Table α} (h : ∀ x ∈ t.values, Plain (f x)) :
    Plain (t.toJson f) := by
  refine .obj (t.mapValues f).nodup fun p hp => ?_
  obtain ⟨e, he, rfl⟩ := List.mem_map.mp hp
  exact h e.2 (List.mem_map_of_mem he)

@[simp] theorem Ty.plain_toJson (t : Ty) : Plain t.toJson :=
  match t with
  | scalar k n => by
    refine .obj (by simp) ?_
    simp
  | named s n => by
    refine .obj (by simp) ?_
    simp
  | array v n => by
    have ih := Ty.plain_toJson v
    refine .obj (by simp) ?_
    simp [ih]
  | keyed k v n => by
    have ihk := Ty.plain_toJson k
    have ihv := Ty.plain_toJson v
    refine .obj (by simp) ?_
    simp [ihk, ihv]
  | union ms n => by
    have ih : ∀ m ∈ ms, Plain m.toJson := fun m hm => Ty.plain_toJson m
    refine .obj (by simp) ?_
    have hms : Plain (.arr (toJsonAll ms)) := by
      rw [toJsonAll_eq_map]
      exact plain_map ih
    simp [hms]
termination_by sizeOf t
decreasing_by
  · simp only [array.sizeOf_spec]; omega
  · simp only [keyed.sizeOf_spec]; omega
  · simp only [keyed.sizeOf_spec]; omega
  · have hlt := List.sizeOf_lt_of_mem hm
    simp only [union.sizeOf_spec]
    omega

@[simp] theorem Ty.plain_toJson? (o : Option Ty) : Plain (Ty.toJson? o) := by
  cases o with
  | none => exact .null
  | some t => exact t.plain_toJson

theorem ParamDecl.plain_toJson (w : ParamDecl) : Plain w.toJson := by
  refine .obj (by simp) ?_
  simp

/-- The fields of a function are plain, so that methods can add theirs to them. -/
theorem FunctionDecl.plain_jsonFields (w : FunctionDecl) : ∀ f ∈ w.jsonFields, Plain f.2 := by
  have hparameters : Plain (.arr (w.parameters.map ParamDecl.toJson)) :=
    plain_map fun p _ => p.plain_toJson
  simp [FunctionDecl.jsonFields, hparameters]

theorem FunctionDecl.plain_toJson (w : FunctionDecl) : Plain w.toJson :=
  .obj (by simp [FunctionDecl.jsonFields]) w.plain_jsonFields

theorem MethodDecl.plain_toJson (w : MethodDecl) : Plain w.toJson := by
  refine .obj (by simp [FunctionDecl.jsonFields]) (List.forall_mem_append.mpr ⟨?_, ?_⟩)
  · exact w.toFunctionDecl.plain_jsonFields
  · simp

theorem PropertyDecl.plain_toJson (w : PropertyDecl) : Plain w.toJson := by
  refine .obj (by simp) ?_
  simp

theorem ConstantDecl.plain_toJson (w : ConstantDecl) : Plain w.toJson := by
  refine .obj (by simp) ?_
  simp

/-- A class is stored as a plain value. -/
theorem ClassDecl.plain_toJson (w : ClassDecl) : Plain w.toJson := by
  have hmethods : Plain (w.methods.toJson MethodDecl.toJson) :=
    plain_table fun m _ => m.plain_toJson
  have hproperties : Plain (w.properties.toJson PropertyDecl.toJson) :=
    plain_table fun p _ => p.plain_toJson
  have hconstants : Plain (w.constants.toJson ConstantDecl.toJson) :=
    plain_table fun k _ => k.plain_toJson
  refine .obj (by simp) ?_
  simp [hmethods, hproperties, hconstants]

/-- So is the report on a file. -/
theorem FileReport.plain_toJson (w : FileReport) : Plain w.toJson := by
  have hclasses : Plain (w.classes.toJson ClassDecl.toJson) := plain_table fun c _ => c.plain_toJson
  have hfunctions : Plain (w.functions.toJson FunctionDecl.toJson) :=
    plain_table fun f _ => f.plain_toJson
  have herrors : Plain (.arr (w.errors.map SourceFault.toJson)) := by
    refine plain_map fun e _ => .obj (by simp) ?_
    simp
  refine .obj (by simp) ?_
  simp [hclasses, hfunctions, herrors]

end Plain

/-! ### Long numbers -/

section LongNumbers

open Json (hasLongNumeral)

attribute [simp] hasLongNumeral Json.anyLongNumeral_eq_any Json.anyLongField_eq_any

@[simp] theorem hasLongNumeral_ofText? (o : Option String) :
    (Json.ofText? o).hasLongNumeral = false := by
  cases o <;> rfl

@[simp] theorem hasLongNumeral_ofInt? (o : Option Int) :
    (Json.ofInt? o).hasLongNumeral = (o.toList.map Int.natAbs).any Number.isLong := by
  cases o <;> simp [Json.ofInt?]

@[simp] theorem hasLongNumeral_ofTexts (texts : List String) :
    (Json.ofTexts texts).hasLongNumeral = false := by
  simp [Json.ofTexts]

@[simp] theorem Table.hasLongNumeral_toJson {α : Type} (f : α → Json) (t : Table α) :
    (t.toJson f).hasLongNumeral = t.values.any fun x => (f x).hasLongNumeral := by
  simp [Table.toJson, Table.values, List.any_map, Function.comp_def]

@[simp] theorem Ty.hasLongNumeral_toJson (t : Ty) : t.toJson.hasLongNumeral = false :=
  match t with
  | scalar k n => by simp [toJson]
  | named s n => by simp [toJson]
  | array v n => by
    have ih := Ty.hasLongNumeral_toJson v
    simp [toJson, ih]
  | keyed k v n => by
    have ihk := Ty.hasLongNumeral_toJson k
    have ihv := Ty.hasLongNumeral_toJson v
    simp [toJson, ihk, ihv]
  | union ms n => by
    have ih : ∀ m ∈ ms, m.toJson.hasLongNumeral = false := fun m hm => Ty.hasLongNumeral_toJson m
    simpa [toJson, toJsonAll_eq_map] using ih
termination_by sizeOf t
decreasing_by
  · simp only [array.sizeOf_spec]; omega
  · simp only [keyed.sizeOf_spec]; omega
  · simp only [keyed.sizeOf_spec]; omega
  · have hlt := List.sizeOf_lt_of_mem hm
    simp only [union.sizeOf_spec]
    omega

@[simp] theorem Ty.hasLongNumeral_toJson? (o : Option Ty) :
    (Ty.toJson? o).hasLongNumeral = false := by
  cases o with
  | none => rfl
  | some t => exact t.hasLongNumeral_toJson

/-- The long numerals among the fields of a function are its long numbers. -/
theorem FunctionDecl.any_isLong_jsonFields (w : FunctionDecl) :
    (w.jsonFields.any fun f => f.2.hasLongNumeral) = w.numbers.any Number.isLong := by
  simp [FunctionDecl.jsonFields, FunctionDecl.numbers, ParamDecl.toJson, List.any_map,
    Function.comp_def]

/-- A stored class has a long number where the class has one. -/
theorem ClassDecl.hasLongNumeral_toJson (w : ClassDecl) :
    w.toJson.hasLongNumeral = w.numbers.any Number.isLong := by
  have hnone : ∀ {α : Type} (xs : List α), (xs.any fun _ => false) = false := fun xs => by simp
  simp [ClassDecl.toJson, ClassDecl.numbers, MethodDecl.toJson, PropertyDecl.toJson,
    ConstantDecl.toJson, FunctionDecl.any_isLong_jsonFields, List.any_flatMap, hnone]

/-- A stored report has a long number where the report has one. -/
theorem FileReport.hasLongNumeral_toJson (w : FileReport) :
    w.toJson.hasLongNumeral = w.numbers.any Number.isLong := by
  simp [FileReport.toJson, FileReport.numbers, ClassDecl.hasLongNumeral_toJson, FunctionDecl.toJson,
    SourceFault.toJson, FunctionDecl.any_isLong_jsonFields, List.any_flatMap, List.any_map,
    Function.comp_def]

end LongNumbers

/-! ### Records from their texts -/

section Texts

variable {limits : Limits}

/-- A record is written exactly if its types are admitted for writing and it has no long numeral.
What is written is its indented text. -/
theorem writeRecord_eq_ok_iff {types : List Ty} {j : Json} {text : String} :
    writeRecord limits types j = .ok text ↔
      (∀ t ∈ types, t.Admitted limits.writes []) ∧ j.hasLongNumeral = false ∧
        text = j.text .indented := by
  have hall : (types.all fun t => (t.chains []).all limits.writes) = true ↔
      ∀ t ∈ types, t.Admitted limits.writes [] := by
    simp only [List.all_eq_true, Ty.Admitted]
  rw [← hall, writeRecord]
  cases types.all fun t => (t.chains []).all limits.writes <;> cases j.hasLongNumeral <;>
    simp [eq_comm]

/-- A record whose check passes just where its types are read is stored just where the limits
admit it. -/
theorem exists_text_iff {α : Type} {kind : String} {check : Json → Checked α} {types : List Ty}
    {numbers : List Nat} {j : Json} {x : α} (hplain : j.Plain)
    (hnumbers : j.hasLongNumeral = numbers.any Number.isLong)
    (hvalid : ∀ t ∈ types, t.normal.Valid)
    (hpass : (∀ t ∈ types, Ty.check t.toJson limits = .ok t.normal) → check j = .ok x)
    (hfail : ∀ t ∈ types, (Ty.check t.toJson limits).Fails → (check j).Fails) :
    (∃ text, writeRecord limits types j = .ok text ∧ recordOfText kind check text = .ok x) ↔
      limits.Admit types numbers := by
  have hshort : j.hasLongNumeral = false ↔
      ∀ n ∈ numbers, (Number.natDigits n).length ≤ Number.digitLimit := by
    simp [hnumbers, Number.isLong]
  have hread : j.hasLongNumeral = false →
      recordOfText kind check (j.text .indented)
        = (check j).toExcept.mapError (.invalid kind) := fun h => by
    rw [recordOfText, Json.read_text (hplain.readable h)]
  constructor
  · rintro ⟨text, htext, hof⟩
    obtain ⟨hwrites, hlong, rfl⟩ := writeRecord_eq_ok_iff.mp htext
    refine ⟨fun t ht chain hchain => ?_, hwrites, hshort.mp hlong⟩
    -- a chain that is refused would make the type fail, and with it the record
    by_contra hrefused
    obtain ⟨cs, hcs⟩ := hfail t ht
      (Ty.fails_checkAt_toJson t hchain (Bool.eq_false_iff.mpr hrefused))
    rw [hread hlong, hcs] at hof
    cases hof
  · intro h
    have hlong := hshort.mpr h.digits
    refine ⟨j.text .indented, writeRecord_eq_ok_iff.mpr ⟨h.writes, hlong, rfl⟩, ?_⟩
    rw [hread hlong, hpass fun t ht => (Ty.check_toJson_iff (hvalid t ht)).mpr (h.reads t ht)]
    rfl

/-- A listing of a valid class is stored just where the limits admit it. -/
theorem ClassDecl.stored_iff {w : ClassDecl} (h : (w.mapTypes Ty.normal).Valid) :
    (∃ text, w.text limits = .ok text ∧ ClassDecl.ofText text limits = .ok (w.mapTypes Ty.normal)) ↔
      limits.Admit w.types w.numbers := by
  rw [ClassDecl.Valid, ClassDecl.types_mapTypes, List.forall_mem_map] at h
  exact exists_text_iff w.plain_toJson w.hasLongNumeral_toJson h Checked.classDecl_toJson
    fun t ht hfails => Checked.fails_classDecl_toJson ht hfails

/-- A listing of a valid report is stored just where the limits admit it. -/
theorem FileReport.stored_iff {w : FileReport} (h : (w.mapTypes Ty.normal).Valid) :
    (∃ text, w.text limits = .ok text ∧
      FileReport.ofText text limits = .ok (w.mapTypes Ty.normal)) ↔
        limits.Admit w.types w.numbers := by
  obtain ⟨htypes, herrors⟩ := h
  rw [FileReport.types_mapTypes, List.forall_mem_map] at htypes
  exact exists_text_iff w.plain_toJson w.hasLongNumeral_toJson htypes
    (fun hread => Checked.fileReport_toJson hread herrors)
    fun t ht hfails => Checked.fails_fileReport_toJson ht hfails

end Texts

@[simp] theorem FunctionDecl.numbers_mapTypes (f : Ty → Ty) (g : FunctionDecl) :
    (g.mapTypes f).numbers = g.numbers := by
  simp [FunctionDecl.numbers, FunctionDecl.mapTypes, ParamDecl.mapTypes]

@[simp] theorem ClassDecl.numbers_mapTypes (f : Ty → Ty) (c : ClassDecl) :
    (c.mapTypes f).numbers = c.numbers := by
  simp [ClassDecl.numbers, ClassDecl.mapTypes, MethodDecl.mapTypes, List.flatMap_map]

@[simp] theorem FileReport.numbers_mapTypes (f : Ty → Ty) (r : FileReport) :
    (r.mapTypes f).numbers = r.numbers := by
  simp [FileReport.numbers, FileReport.mapTypes, List.flatMap_map]

/-- Classes and file reports are read back from their texts, and also from the texts of records
that list the members of unions in any other order, exactly where the limits admit their types
and numbers. -/
theorem ofText_text_of_listing (limits : Limits) :
    (∀ c : ClassDecl, c.Valid → c.mapTypes Ty.normal = c ∧
      ∀ w : ClassDecl, w.mapTypes Ty.normal = c →
        ((∃ text, w.text limits = .ok text ∧ ClassDecl.ofText text limits = .ok c) ↔
          limits.Admit c.types c.numbers)) ∧
    ∀ r : FileReport, r.Valid → r.mapTypes Ty.normal = r ∧
      ∀ w : FileReport, w.mapTypes Ty.normal = r →
        ((∃ text, w.text limits = .ok text ∧ FileReport.ofText text limits = .ok r) ↔
          limits.Admit r.types r.numbers) := by
  refine ⟨fun c h => ⟨ClassDecl.mapTypes_normal h, ?_⟩,
    fun r h => ⟨FileReport.mapTypes_normal h.types, ?_⟩⟩
  · rintro w rfl
    rw [ClassDecl.types_mapTypes, ClassDecl.numbers_mapTypes, Limits.admit_normal]
    exact ClassDecl.stored_iff h
  · rintro w rfl
    rw [FileReport.types_mapTypes, FileReport.numbers_mapTypes, Limits.admit_normal]
    exact FileReport.stored_iff h

/-- A class with one property of the given type, a quote in its name and a line below zero. -/
def classWithProperty (t : Ty) : ClassDecl where
  name := "App\\\"A\""
  shortName := "A"
  properties := Table.empty.insert "é\n" { name := "é\n", type := some t }
  line := some (-12)

/-- Limits that admit types in at most two others. -/
def Limits.threeDeep : Limits where
  reads chain := chain.length ≤ 3
  writes chain := chain.length ≤ 3

theorem ofText_text_of_listing_reversed :
    (classWithProperty
      (.union [.scalar .int false, .array (.named "User" true) false] true)).Valid ∧
    (classWithProperty
      (.union [.array (.named "User" true) false, .scalar .int false] true)).mapTypes
        Ty.normal
      = classWithProperty (.union [.scalar .int false, .array (.named "User" true) false] true) ∧
    ∃ text,
      (classWithProperty (.union [.array (.named "User" true) false, .scalar .int false] true)).text
          .threeDeep = .ok text ∧
      ClassDecl.ofText text .threeDeep
        = .ok (classWithProperty
          (.union [.scalar .int false, .array (.named "User" true) false] true)) := by
  have hvalid : (classWithProperty
      (.union [.scalar .int false, .array (.named "User" true) false] true)).Valid := by
    intro t ht
    obtain rfl := List.mem_singleton.mp ht
    refine .union _ (by decide) (by unfold Ty.Increasing; decide) (by decide) fun m hm => ?_
    rcases List.mem_pair.mp hm with rfl | rfl
    · exact .scalar _ _
    · exact .array _ (.named _ (by decide))
  have hlisting : (classWithProperty
      (.union [.array (.named "User" true) false, .scalar .int false] true)).mapTypes Ty.normal
        = classWithProperty
          (.union [.scalar .int false, .array (.named "User" true) false] true) := by
    decide +kernel
  refine ⟨hvalid, hlisting,
    (((ofText_text_of_listing .threeDeep).1 _ hvalid).2 _ hlisting).mpr ⟨?_, ?_, ?_⟩⟩
  · intro t ht
    obtain rfl := List.mem_singleton.mp ht
    unfold Ty.Admitted
    decide
  · intro t ht
    obtain rfl := List.mem_singleton.mp ht
    unfold Ty.Admitted
    decide
  · intro n hn
    obtain rfl := List.mem_singleton.mp hn
    simp [Number.natDigits, Number.digitLimit]

/-! ### Records that cannot be stored -/

/-- The number that is written with so many ones. -/
def Number.ones : Nat → Nat
  | 0 => 0
  | n + 1 => ones n * 10 + 1

/-- So many ones are so many digits. -/
theorem Number.length_natDigits_ones (n : Nat) : (natDigits (ones (n + 1))).length = n + 1 := by
  induction n with
  | zero => simp [natDigits, ones]
  | succ n ih =>
    have hlarge : ¬ ones (n + 1) * 10 + 1 < 10 := by
      rw [ones]
      omega
    have hdiv : (ones (n + 1) * 10 + 1) / 10 = ones (n + 1) := by omega
    rw [ones, natDigits, if_neg hlarge, hdiv, List.length_append, ih, List.length_singleton]

/-- The fields of a stored class; the line comes behind them. -/
def ClassDecl.jsonFieldsBeforeLine (c : ClassDecl) : List (String × Json) :=
  [("name", .str c.name), ("short_name", .str c.shortName), ("namespace", .str c.ns),
    ("kind", .str c.kind.word), ("modifiers", .ofTexts c.modifiers), ("parent", .ofText? c.parent),
    ("interfaces", .ofTexts c.interfaces), ("traits", .ofTexts c.traits),
    ("methods", c.methods.toJson MethodDecl.toJson),
    ("properties", c.properties.toJson PropertyDecl.toJson),
    ("constants", c.constants.toJson ConstantDecl.toJson), ("doc_comment", .ofText? c.docComment),
    ("file", .ofText? c.file)]

/-- The line is the last field of a stored class. -/
theorem ClassDecl.toJson_eq (c : ClassDecl) :
    c.toJson = .obj (c.jsonFieldsBeforeLine ++ [("line", .ofInt? c.line)]) := rfl

/-- A class whose line has too many digits, and whose other numbers have not, is not read from its
stored form. -/
theorem ClassDecl.ofText_of_long_line {c : ClassDecl} {i : Int} (limits : Limits)
    (hline : c.line = some i) (hlong : Number.digitLimit < (Number.natDigits i.natAbs).length)
    (hothers : ∀ n ∈ ({ c with line := none } : ClassDecl).numbers, Number.isLong n = false) :
    ClassDecl.ofText (c.toJson.text .indented) limits
      = .error (.longNumeral (Number.natDigits i.natAbs).length) := by
  have hread : (Json.obj (c.jsonFieldsBeforeLine ++ [("line", .null)])).Readable := by
    refine (ClassDecl.plain_toJson { c with line := none }).readable ?_
    rw [ClassDecl.hasLongNumeral_toJson]
    simpa using hothers
  cases hread with
  | obj hnodup hfields =>
    rw [List.map_append, List.nodup_append] at hnodup
    have htext : Json.read (c.toJson.text .indented)
        = .error (.longNumeral (Number.natDigits i.natAbs).length) := by
      rw [ClassDecl.toJson_eq, hline]
      exact Json.read_text_long (fun f hf => hfields f (List.mem_append_left _ hf)) hnodup.1 hlong
    rw [ClassDecl.ofText, recordOfText, htext]

/-- A class with nothing but a name, on the given line. -/
def classOnLine (line : Nat) : ClassDecl where
  name := "A"
  shortName := "A"
  line := some line

/-- A class on a line with too many digits is neither written nor read. -/
theorem classOnLine_not_stored (limits : Limits) {line n : Nat}
    (hlength : (Number.natDigits line).length = n) (h : Number.digitLimit < n) :
    (classOnLine line).text limits = .error .longNumeral ∧
      ClassDecl.ofText ((classOnLine line).toJson.text .indented) limits
        = .error (.longNumeral n) := by
  have hnumbers : (classOnLine line).numbers = [line] := rfl
  have hlong : (classOnLine line).toJson.hasLongNumeral = true := by
    rw [ClassDecl.hasLongNumeral_toJson, hnumbers, List.any_cons, Number.isLong, hlength]
    simp [h]
  constructor
  · rw [ClassDecl.text, writeRecord, hlong]
    rfl
  · have hothers : ∀ m ∈ ({ classOnLine line with line := none } : ClassDecl).numbers,
        Number.isLong m = false := by
      intro m hm
      cases hm
    rw [ClassDecl.ofText_of_long_line limits rfl (by rwa [Int.natAbs_natCast, hlength]) hothers,
      Int.natAbs_natCast, hlength]

/-- Not every valid class can be stored. One on a line whose number has 4301 digits is neither
written nor read, and one with arrays in arrays is not stored where the limits refuse so many of
them, for writing or for reading. -/
theorem long_line_and_nested_arrays_not_stored :
    (∀ limits : Limits, (classOnLine (Number.ones 4301)).text limits = .error .longNumeral ∧
      ClassDecl.ofText ((classOnLine (Number.ones 4301)).toJson.text .indented) limits
        = .error (.longNumeral 4301)) ∧
    ∀ (limits : Limits) (n : Nat),
      (limits.writes (List.replicate (n + 1) .array) = false ∨
        limits.reads (List.replicate (n + 1) .array) = false) →
      (classWithProperty (.nested (n + 1))).Valid ∧
        ¬∃ text, (classWithProperty (.nested (n + 1))).text limits = .ok text ∧
          ClassDecl.ofText text limits = .ok (classWithProperty (.nested (n + 1))) := by
  have hlength : (Number.natDigits (Number.ones 4301)).length = 4301 :=
    Number.length_natDigits_ones 4300
  refine ⟨fun limits => classOnLine_not_stored limits hlength (Nat.lt_succ_self 4300),
    fun limits n h => ?_⟩
  have hvalid : (classWithProperty (.nested (n + 1))).Valid := by
    intro t ht
    obtain rfl := List.mem_singleton.mp ht
    exact Ty.nested_valid _
  have hself := ClassDecl.mapTypes_normal hvalid
  refine ⟨hvalid, fun hstored => ?_⟩
  rw [← hself] at hvalid
  have hfits := (ClassDecl.stored_iff hvalid).mp (by rwa [hself])
  have htype : Ty.nested (n + 1) ∈ (classWithProperty (.nested (n + 1))).types :=
    List.mem_singleton_self _
  have hchain := Ty.mem_chains_nested n []
  rw [List.append_nil] at hchain
  rcases h with hwrites | hreads
  · exact absurd (hfits.writes _ htype _ hchain) (by simp [hwrites])
  · exact absurd (hfits.reads _ htype _ hchain) (by simp [hreads])

end TypeFacts
