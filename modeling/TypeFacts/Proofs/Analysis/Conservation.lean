import Mathlib.Data.List.Nodup
import TypeFacts.Proofs.Analysis.Precedence

/-!
# Reflection adds members and changes none

A class is built from its source, and where members are kept that only reflection knows, these are
added (`Analysis.buildClass_conservative`).

* Every member of the source is in the declaration, as its last declaration in the source has it
  (`KeepsSource`), and without the members of reflection there are no others (`OnlySource`).
* The members of reflection stand behind those of the source, each once, and the members of the
  source are what they are without them (`Extends`). Names of methods are compared without regard to
  letter case, those of properties and constants as they are written; `Adds` says what all three
  have in common.

One thing could upset this: a constructor that only reflection knows is asked for the types of
properties. But reflection does not say which parameters make properties, so it has no answer
(`promotedType_of_adds`).
-/

namespace TypeFacts

namespace Analysis

/-! ### Tables with members added -/

section Adds

variable {α : Type}

/-- The second table has the entries of the first, and behind them members of reflection up to
`Same`, whose names differ from those of the source; each other name of reflection occurs once.
Names are compared by `fold`. -/
def Adds (fold : String → String) (Same : α → α → Prop) (source : List String)
    (reflected own built : Table α) : Prop :=
  ∃ extra, built.entries = own.entries ++ extra ∧
    (∀ e ∈ extra, fold e.1 ∉ source.map fold ∧ ∃ x, (e.1, x) ∈ reflected.entries ∧ Same x e.2) ∧
    ∀ n ∈ reflected.names, fold n ∉ source.map fold → (built.names.map fold).count (fold n) = 1

variable {fold : String → String} {Same : α → α → Prop} {source : List String}
  {reflected own built : Table α}

theorem Adds.isPrefix (h : Adds fold Same source reflected own built) :
    own.entries <+: built.entries := by
  obtain ⟨extra, hentries, -⟩ := h
  exact ⟨extra, hentries.symm⟩

/-- Setting members of other names adds them. -/
theorem adds_insertAll {extra : List (String × α)} (hown : ∀ n, n ∈ own.names ↔ n ∈ source)
    (hnodup : ((extra.map Prod.fst).map fold).Nodup)
    (hextra : ∀ e ∈ extra, fold e.1 ∉ source.map fold ∧
      ∃ x, (e.1, x) ∈ reflected.entries ∧ Same x e.2)
    (hall : ∀ n ∈ reflected.names, fold n ∉ source.map fold → ∃ e ∈ extra, fold e.1 = fold n) :
    Adds fold Same source reflected own (own.insertAll extra) := by
  have hnames : ((own.entries ++ extra).map Prod.fst).Nodup := by
    rw [List.map_append, List.nodup_append]
    refine ⟨own.nodup, hnodup.of_map fold, fun n hn m hm heq => ?_⟩
    obtain ⟨e, he, rfl⟩ := List.mem_map.mp hm
    exact (hextra e he).1 (List.mem_map.mpr ⟨n, (hown n).mp hn, congrArg fold heq⟩)
  have hentries := Table.entries_insertAll hnames
  refine ⟨extra, hentries, hextra, fun n hn hnew => ?_⟩
  have hfolds : (own.insertAll extra).names.map fold
      = own.names.map fold ++ (extra.map Prod.fst).map fold := by
    rw [Table.names, hentries, List.map_append, List.map_append]
    rfl
  -- among the names of the source there is none, and among the others the one that was found
  have hsource : (own.names.map fold).count (fold n) = 0 := by
    refine List.count_eq_zero.mpr fun hmem => hnew ?_
    obtain ⟨m, hm, heq⟩ := List.mem_map.mp hmem
    exact List.mem_map.mpr ⟨m, (hown m).mp hm, heq⟩
  have hothers : ((extra.map Prod.fst).map fold).count (fold n) = 1 := by
    obtain ⟨e, he, heq⟩ := hall n hn hnew
    exact List.count_eq_one_of_mem hnodup
      (List.mem_map.mpr ⟨e.1, List.mem_map_of_mem he, heq⟩)
  rw [hfolds, List.count_append, hsource, hothers]

/-- Members whose names are not in the table, as they are written, are added. -/
theorem adds_others {extra : List (String × α)} (hown : ∀ n, n ∈ own.names ↔ n ∈ source)
    (hnames : extra.map Prod.fst
      = (reflected.entries.filter fun e => !own.contains e.1).map Prod.fst)
    (hextra : ∀ e ∈ extra, ∃ x, (e.1, x) ∈ reflected.entries ∧ Same x e.2) :
    Adds id Same source reflected own (own.insertAll extra) := by
  have hmem : ∀ n, n ∈ extra.map Prod.fst ↔ n ∈ reflected.names ∧ n ∉ source := by
    intro n
    rw [hnames]
    constructor
    · intro hn
      obtain ⟨e, he, rfl⟩ := List.mem_map.mp hn
      obtain ⟨he, hnew⟩ := List.mem_filter.mp he
      refine ⟨List.mem_map_of_mem he, fun hmem => ?_⟩
      rw [← hown, ← Table.contains_iff] at hmem
      simp [hmem] at hnew
    · rintro ⟨hn, hnew⟩
      obtain ⟨e, he, rfl⟩ := List.mem_map.mp hn
      rw [← hown, ← Table.contains_iff] at hnew
      exact List.mem_map_of_mem (List.mem_filter.mpr ⟨he, by simpa using hnew⟩)
  refine adds_insertAll hown ?_ (fun e he => ⟨?_, hextra e he⟩) fun n hn hnew => ?_
  · rw [List.map_id, hnames]
    exact reflected.nodup.sublist (List.Sublist.map Prod.fst List.filter_sublist)
  · rw [List.map_id]
    exact ((hmem e.1).mp (List.mem_map_of_mem he)).2
  · rw [List.map_id] at hnew
    exact List.mem_map.mp ((hmem n).mpr ⟨hn, hnew⟩)

end Adds

/-! ### Members of reflection -/

/-- The property up to what its doc comment says. -/
def SameProperty (p q : PropertyDecl) : Prop :=
  q = { p with type := q.type }

variable {readers : Table Doc.TagReader} {r r' : Doc.Reader}

theorem reflectedProperty_eq_ok {p q : PropertyDecl} (hr : Doc.Reader.Sound readers r)
    (h : ((reflectedProperty p).run r).1 = .ok q) : SameProperty p q := by
  obtain ⟨doc, r₁, -, hr₁, h⟩ := (gives_docBlock _).exists_of_bind hr h
  obtain ⟨documented, r₂, -, -, h⟩ := (gives_pure _).exists_of_bind hr₁ h
  obtain rfl := Except.ok.inj h
  rfl

/-- A class as reflection can describe it: its methods are listed under their names, and of no
parameter it says that it makes a property. -/
structure ReflectionShaped (reflected : ClassDecl) : Prop where
  lists : ListsMethods (some reflected)
  unpromoted : ∀ e ∈ reflected.methods.entries, ∀ p ∈ e.2.parameters, p.promoted = none

/-! ### Methods -/

variable {keep : Bool} {cls : ClassOutline} {file : String} {reflected : ClassDecl}
  {methods : Table MethodDecl} {ownMethods : List (String × MethodDecl)}

/-- Methods that only reflection knows are added to those of the source. -/
theorem buildMethods_adds (hr : Doc.Reader.Sound readers r)
    (hreflected : ReflectionShaped reflected)
    (h : ((buildMethods true cls file (some reflected)).run r).1 = .ok methods) : ∃ own,
      sourceMethods r cls file (some reflected) = .ok own ∧
      Adds Text.lower SameMethod (cls.methods.map FunctionOutline.name) reflected.methods
        (Table.ofList own) methods := by
  obtain ⟨own, hown, others, hothers, rfl⟩ := buildMethods_eq_ok hr h
  have hnames := mem_names_of_mapM hown
  have hlower : ∀ e ∈ (methodsIgnoringCase (some reflected)).entries, e.1 = Text.lower e.2.name :=
    fun e he => hreflected.lists.mem_ignoringCase he
  have hdeclared : ∀ n, n ∈ (Table.ofList own).names.map Text.lower ↔
      n ∈ (cls.methods.map FunctionOutline.name).map Text.lower := by
    intro n
    rw [List.mem_map, List.mem_map]
    exact exists_congr fun m => and_congr_left fun _ => hnames m
  refine ⟨own, hown, adds_insertAll hnames ?_ (fun e he => ?_) fun n hn hnew => ?_⟩
  · -- the names of those that are added are, in lower case, names of different methods
    have hfolds : (others.map Prod.fst).map Text.lower
        = ((methodsIgnoringCase (some reflected)).entries.filter fun e =>
          !((Table.ofList own).names.map Text.lower).contains e.1).map Prod.fst := by
      rw [← names_of_mapM hothers, List.map_map]
      exact List.map_congr_left fun e he => (hlower e (List.mem_filter.mp he).1).symm
    rw [hfolds]
    exact (methodsIgnoringCase (some reflected)).nodup.sublist
      (List.Sublist.map Prod.fst List.filter_sublist)
  · obtain ⟨known, hknown, he⟩ := exists_of_mem_mapM hothers he
    obtain ⟨d, hd, he⟩ := bind_eq_ok.mp he
    obtain rfl := Except.ok.inj he
    obtain ⟨hknown, hnew⟩ := List.mem_filter.mp hknown
    refine ⟨fun hmem => ?_, known.2, ?_, reflectedMethod_eq_ok hr hd⟩
    · rw [← hlower known hknown, ← hdeclared] at hmem
      simp [hmem] at hnew
    · obtain ⟨e, hlisted, rfl⟩ := List.mem_map.mp (Table.mem_of_mem_entries_ofList hknown)
      show (e.2.name, e.2) ∈ reflected.methods.entries
      rw [hreflected.lists reflected rfl e hlisted]
      exact hlisted
  · have hknown : Text.lower n ∈ (methodsIgnoringCase (some reflected)).names := by
      obtain ⟨e, he, rfl⟩ := List.mem_map.mp hn
      exact Table.mem_names_ofList.mpr (List.mem_map.mpr ⟨_, List.mem_map_of_mem he, rfl⟩)
    obtain ⟨e, he, heq⟩ := List.mem_map.mp hknown
    rw [← heq, ← hdeclared] at hnew
    have hkept : e.2.name ∈ others.map Prod.fst := by
      rw [← names_of_mapM hothers]
      exact List.mem_map_of_mem (List.mem_filter.mpr ⟨he, by simpa using hnew⟩)
    obtain ⟨e', he', hname⟩ := List.mem_map.mp hkept
    exact ⟨e', he', by rw [hname, ← hlower e he, heq]⟩

/-- Without the members of reflection, the methods are those of the source. -/
theorem gives_buildMethods_false (hr : Doc.Reader.Sound readers r)
    (hown : sourceMethods r cls file (some reflected) = .ok ownMethods) :
    Gives (Doc.Reader.Sound readers) (buildMethods false cls file (some reflected)).run
      (.ok (Table.ofList ownMethods)) := by
  have hrow : Gives (Doc.Reader.Sound readers) (buildMethods false cls file (some reflected)).run
      (sourceMethods r cls file (some reflected) >>= fun own => .ok (Table.ofList own)) :=
    (gives_mapM_named _ (fun m => (steady_sourceMethod _ _ _ m).gives hr) cls.methods).bind
      fun own _ => gives_pure _
  rwa [hown] at hrow

/-- Of a constructor that only reflection knows, no parameter makes a property. -/
theorem promotedType_of_adds {source : List String} {own : Table MethodDecl}
    (hreflected : ReflectionShaped reflected)
    (h : Adds Text.lower SameMethod source reflected.methods own methods) (name : String) :
    promotedType (methods.values.find? (·.isConstructor)) name
      = promotedType (own.values.find? (·.isConstructor)) name := by
  obtain ⟨extra, hentries, hextra, -⟩ := h
  have hvalues : methods.values = own.values ++ extra.map Prod.snd := by
    rw [Table.values, hentries, List.map_append]
    rfl
  rw [hvalues, List.find?_append]
  cases hfind : own.values.find? (·.isConstructor) with
  | some d => rfl
  | none =>
    rw [Option.none_or]
    cases hadded : (extra.map Prod.snd).find? (·.isConstructor) with
    | none => rfl
    | some d =>
      obtain ⟨e, he, rfl⟩ := List.mem_map.mp (List.mem_of_find?_eq_some hadded)
      obtain ⟨-, x, hx, hsame, -⟩ := hextra e he
      show (e.2.parameter? name).bind (fun p => p.promoted.bind fun _ => p.type) = none
      cases hparameter : e.2.parameter? name with
      | none => rfl
      | some q =>
        have hq : q ∈ e.2.parameters := List.mem_of_find?_eq_some hparameter
        obtain ⟨p, hp, hpq⟩ := exists_of_mem_forall₂ hsame hq
        have hnone : q.promoted = none := by
          rw [show q = _ from hpq]
          exact hreflected.unpromoted (e.1, x) hx p hp
        rw [Option.bind_some, hnone]
        rfl

/-! ### Properties and constants -/

variable {constructor : Option MethodDecl} {properties : Table PropertyDecl}
  {ownProperties : List (String × PropertyDecl)}

/-- Properties that only reflection knows are added to those of the source. -/
theorem buildProperties_adds (hr : Doc.Reader.Sound readers r)
    (h : ((buildProperties true cls constructor (some reflected)).run r).1 = .ok properties) :
    ∃ own, sourceProperties r cls constructor (some reflected) = .ok own ∧
      Adds id SameProperty (cls.properties.map PropertyOutline.name) reflected.properties
        (Table.ofList own) properties := by
  obtain ⟨own, hown, others, hothers, rfl⟩ := buildProperties_eq_ok hr h
  refine ⟨own, hown, adds_others (mem_names_of_mapM hown) (names_of_mapM hothers).symm ?_⟩
  intro e he
  obtain ⟨known, hknown, he⟩ := exists_of_mem_mapM hothers he
  obtain ⟨d, hd, he⟩ := bind_eq_ok.mp he
  obtain rfl := Except.ok.inj he
  exact ⟨known.2, (List.mem_filter.mp hknown).1, reflectedProperty_eq_ok hr hd⟩

/-- Without the members of reflection, the properties are those of the source. -/
theorem gives_buildProperties_false (hr : Doc.Reader.Sound readers r)
    (hown : sourceProperties r cls constructor (some reflected) = .ok ownProperties) :
    Gives (Doc.Reader.Sound readers) (buildProperties false cls constructor (some reflected)).run
      (.ok (Table.ofList ownProperties)) := by
  have hrow : Gives (Doc.Reader.Sound readers)
      (buildProperties false cls constructor (some reflected)).run
      (sourceProperties r cls constructor (some reflected) >>= fun own =>
        .ok (Table.ofList own)) :=
    (gives_mapM_named _ (fun p => (steady_sourceProperty _ _ _ p).gives hr) cls.properties).bind
      fun own _ => gives_pure _
  rwa [hown] at hrow

/-- Of the constructor, only the types of properties that it makes count. -/
theorem buildProperties_congr {other : Option MethodDecl}
    (h : ∀ name, promotedType constructor name = promotedType other name) :
    buildProperties keep cls constructor (some reflected)
      = buildProperties keep cls other (some reflected) := by
  simp only [buildProperties, sourceProperty, h]

theorem get?_buildConstants_false (reflected : ClassDecl) {c : ConstantOutline}
    (hc : LastNamed ConstantOutline.name cls.constants c) :
    (buildConstants false cls (some reflected)).get? c.name = some (sourceConstant c) := by
  obtain ⟨before, after, hconstants, hafter⟩ := hc
  refine Table.get?_ofList_eq_some.mpr ⟨before.map fun c => (c.name, sourceConstant c),
    after.map fun c => (c.name, sourceConstant c), ?_, fun hmem => ?_⟩
  · rw [hconstants, List.map_append, List.map_cons]
  · rw [List.map_map] at hmem
    obtain ⟨d, hd, hname⟩ := List.mem_map.mp hmem
    exact hafter d hd hname

theorem mem_names_buildConstants_false (reflected : ClassDecl) (n : String) :
    n ∈ (buildConstants false cls (some reflected)).names ↔
      n ∈ cls.constants.map ConstantOutline.name := by
  show n ∈ (Table.ofList _).names ↔ _
  rw [Table.mem_names_ofList, List.map_map]
  exact Iff.rfl

/-- Constants that only reflection knows are added to those of the source. -/
theorem buildConstants_adds :
    Adds id Eq (cls.constants.map ConstantOutline.name) reflected.constants
      (buildConstants false cls (some reflected)) (buildConstants true cls (some reflected)) := by
  refine adds_others (mem_names_buildConstants_false reflected) rfl fun e he => ?_
  exact ⟨e.2, (List.mem_filter.mp he).1, rfl⟩

/-! ### Classes -/

/-- The declaration has the members of the source, each with what its last declaration says
of it. -/
structure KeepsSource (cls : ClassOutline) (decl : ClassDecl) : Prop where
  methods (m : FunctionOutline) : LastNamed FunctionOutline.name cls.methods m →
    ∃ d, decl.methods.get? m.name = some d ∧ d.visibility = m.visibility ∧ d.modifiers = m.modifiers
  properties (p : PropertyOutline) : LastNamed PropertyOutline.name cls.properties p →
    ∃ d, decl.properties.get? p.name = some d ∧ d.visibility = p.visibility ∧
      d.isStatic = p.isStatic ∧ d.readonly = p.readonly
  constants (c : ConstantOutline) : LastNamed ConstantOutline.name cls.constants c →
    decl.constants.get? c.name = some (sourceConstant c)

/-- The declaration has no members but those of the source. -/
structure OnlySource (cls : ClassOutline) (decl : ClassDecl) : Prop where
  methods (n : String) : n ∈ decl.methods.names ↔ n ∈ cls.methods.map FunctionOutline.name
  properties (n : String) : n ∈ decl.properties.names ↔ n ∈ cls.properties.map PropertyOutline.name
  constants (n : String) : n ∈ decl.constants.names ↔ n ∈ cls.constants.map ConstantOutline.name

/-- The second declaration is the first with members of reflection behind those of the source, and
with more interfaces and traits behind those of the source. -/
structure Extends (cls : ClassOutline) (reflected off on : ClassDecl) : Prop where
  methods : Adds Text.lower SameMethod (cls.methods.map FunctionOutline.name) reflected.methods
    off.methods on.methods
  properties : Adds id SameProperty (cls.properties.map PropertyOutline.name) reflected.properties
    off.properties on.properties
  constants : Adds id Eq (cls.constants.map ConstantOutline.name) reflected.constants
    off.constants on.constants
  interfaces : off.interfaces = cls.interfaces ∧ cls.interfaces <+: on.interfaces
  traits : off.traits = cls.traits ∧ cls.traits <+: on.traits
  header : { on with
    methods := off.methods
    properties := off.properties
    constants := off.constants
    interfaces := off.interfaces
    traits := off.traits } = off

variable {on off : ClassDecl}

/-- The declaration without the members of reflection. -/
theorem buildClass_false (hr : Doc.Reader.Sound readers r)
    (h : ((buildClass false file (some reflected) cls).run r).1 = .ok off) :
    KeepsSource cls off ∧ OnlySource cls off := by
  obtain ⟨hmethods, hproperties, hconstants⟩ := buildClass_eq_ok hr h
  obtain ⟨ownMethods, hownMethods, hmethods⟩ := buildMethods_eq_ok hr hmethods
  obtain ⟨ownProperties, hownProperties, hproperties⟩ := buildProperties_eq_ok hr hproperties
  refine ⟨⟨fun m hm => ?_, fun p hp => ?_, fun c hc => ?_⟩, ⟨fun n => ?_, fun n => ?_, fun n => ?_⟩⟩
  · rw [hmethods]
    obtain ⟨d, hd, hget⟩ := get?_of_lastNamed hownMethods hm
    exact ⟨d, hget, (sourceMethod_eq_ok hr hd).2⟩
  · rw [hproperties]
    obtain ⟨d, hd, hget⟩ := get?_of_lastNamed hownProperties hp
    exact ⟨d, hget, (sourceProperty_eq_ok hr hd).2⟩
  · rw [hconstants]
    exact get?_buildConstants_false reflected hc
  · rw [hmethods]
    exact mem_names_of_mapM hownMethods n
  · rw [hproperties]
    exact mem_names_of_mapM hownProperties n
  · rw [hconstants]
    exact mem_names_buildConstants_false reflected n

/-- Members of reflection hide none of the source. -/
theorem Extends.keepsSource (h : Extends cls reflected off on) (hoff : KeepsSource cls off) :
    KeepsSource cls on where
  methods m hm := by
    obtain ⟨d, hget, hfacts⟩ := hoff.methods m hm
    exact ⟨d, Table.get?_of_isPrefix h.methods.isPrefix hget, hfacts⟩
  properties p hp := by
    obtain ⟨d, hget, hfacts⟩ := hoff.properties p hp
    exact ⟨d, Table.get?_of_isPrefix h.properties.isPrefix hget, hfacts⟩
  constants c hc := Table.get?_of_isPrefix h.constants.isPrefix (hoff.constants c hc)

theorem unionNames_nil (names : List String) : unionNames names [] = names :=
  List.append_nil names

/-- Where the class is built with the members of reflection, it is built without them, too, and they
are what is added. -/
theorem buildClass_extends (hr : Doc.Reader.Sound readers r) (hr' : Doc.Reader.Sound readers r')
    (hreflected : ReflectionShaped reflected)
    (h : ((buildClass true file (some reflected) cls).run r).1 = .ok on) :
    ∃ off, ((buildClass false file (some reflected) cls).run r').1 = .ok off ∧
      Extends cls reflected off on := by
  obtain ⟨methods, r₁, hmethods, hr₁, h⟩ :=
    ((steady_buildMethods _ _ _ _).gives hr).exists_of_bind hr h
  obtain ⟨properties, r₂, hproperties, -, h⟩ :=
    ((steady_buildProperties _ _ _ _).gives hr₁).exists_of_bind hr₁ h
  obtain rfl := Except.ok.inj h
  obtain ⟨ownMethods, hownMethods, haddsMethods⟩ := buildMethods_adds hr hreflected hmethods
  obtain ⟨ownProperties, hownProperties, haddsProperties⟩ := buildProperties_adds hr₁ hproperties
  -- the properties of the source are built alike with either constructor
  have hoffProperties := gives_buildProperties_false hr₁ hownProperties
  rw [buildProperties_congr (promotedType_of_adds hreflected haddsMethods)] at hoffProperties
  refine (gives_buildMethods_false hr hownMethods).exists_bind hr' fun s hs => ?_
  refine hoffProperties.exists_bind hs fun s' _ => ⟨_, rfl, ?_⟩
  exact {
    methods := haddsMethods
    properties := haddsProperties
    constants := buildConstants_adds
    interfaces := ⟨unionNames_nil _, List.prefix_append _ _⟩
    traits := ⟨unionNames_nil _, List.prefix_append _ _⟩
    header := rfl }

end Analysis

/-! ### Reflection -/

theorem ReflectedParam.promoted_toDecl {p : ReflectedParam} {d : ParamDecl} (h : p.toDecl = .ok d) :
    d.promoted = none := by
  obtain ⟨type, -, h⟩ := bind_eq_ok.mp h
  obtain rfl := Except.ok.inj h
  rfl

theorem ReflectedClass.fromReflection {c : ReflectedClass} {decl : ClassDecl}
    (h : c.toDecl = .ok decl) : Analysis.ReflectionShaped decl where
  lists := by
    intro c' hc
    obtain rfl := Option.some.inj hc
    have hreflected : decl.IsReflected := ⟨c, h⟩
    exact hreflected.coherent.methods
  unpromoted := by
    intro e he p hp
    obtain ⟨methods, hmethods, h⟩ := bind_eq_ok.mp h
    obtain ⟨properties, -, h⟩ := bind_eq_ok.mp h
    obtain rfl := Except.ok.inj h
    obtain ⟨m, -, hm⟩ := exists_of_mem_mapM hmethods (Table.mem_of_mem_entries_ofList he)
    obtain ⟨d, hd, hm⟩ := bind_eq_ok.mp hm
    obtain rfl := Except.ok.inj hm
    obtain ⟨parameters, hparameters, hd⟩ := bind_eq_ok.mp hd
    obtain ⟨returnType, -, hd⟩ := bind_eq_ok.mp hd
    obtain rfl := Except.ok.inj hd
    obtain ⟨q, -, hq⟩ := exists_of_mem_mapM hparameters hp
    exact ReflectedParam.promoted_toDecl hq

namespace Analysis

/-- With reflection or without, the members of the source are in the declaration as the source has
them. Without the members of reflection there are no others; with them, they are added behind the
members of the source, each once, and nothing else changes but the interfaces and traits, which
begin with those of the source. -/
theorem buildClass_conservative {c : ReflectedClass} {reflected : ClassDecl}
    (hc : c.toDecl = .ok reflected) {readers : Table Doc.TagReader} {r r' : Doc.Reader}
    (hr : Doc.Reader.Sound readers r) (hr' : Doc.Reader.Sound readers r') (file : String)
    (cls : ClassOutline) :
    (∀ off, ((buildClass false file (some reflected) cls).run r').1 = .ok off →
      KeepsSource cls off ∧ OnlySource cls off) ∧
    ∀ on, ((buildClass true file (some reflected) cls).run r).1 = .ok on →
      KeepsSource cls on ∧
        ∃ off, ((buildClass false file (some reflected) cls).run r').1 = .ok off ∧
          Extends cls reflected off on := by
  refine ⟨fun off hoff => buildClass_false hr' hoff, fun on hon => ?_⟩
  obtain ⟨off, hoff, hextends⟩ :=
    buildClass_extends hr hr' (ReflectedClass.fromReflection hc) hon
  exact ⟨hextends.keepsSource (buildClass_false hr' hoff).1, off, hoff, hextends⟩

/-- A class with a method that is declared twice, a property and a constant. -/
def sampleOutline : ClassOutline where
  name := "A"
  shortName := "A"
  ns := ""
  kind := .cls
  interfaces := ["I"]
  methods := [{ name := "run", qualifiedName := "A::run" },
    { name := "run", qualifiedName := "A::run", visibility := .priv, modifiers := ["static"] }]
  properties := [{ name := "x", visibility := .prot, readonly := true }]
  constants := [{ name := "C" }]

/-- The class as reflection sees it: its method in capital letters, a constructor that the
source does not declare, with a parameter that is called as the property, and another property
and constant. -/
def sampleReflected : ReflectedClass where
  name := "A"
  kind := .cls
  isAbstract := false
  isFinal := false
  readonly := false
  parent := none
  interfaces := ["i", "J"]
  traits := []
  methods :=
    [⟨⟨"RUN", [], none, none, none, none⟩, none, .pub, false, false, false⟩,
      ⟨⟨"__construct",
        [⟨"x", 0, some (.named (some "int") false), false, false, false, none⟩], none,
        none, none, none⟩, none, .pub, false, false, false⟩]
  properties :=
    [⟨"y", .pub, false, false, none, none, none⟩, ⟨"x", .pub, true, false, none, none, none⟩]
  constants := [⟨"C", .pub, .int 1⟩, ⟨"c", .pub, .int 2⟩]
  docComment := none
  file := none
  line := none

theorem buildClass_conservative_constructor : ∃ reflected on off,
    sampleReflected.toDecl = .ok reflected ∧
    ((buildClass true "a.php" (some reflected) sampleOutline).run (.new [])).1 = .ok on ∧
    ((buildClass false "a.php" (some reflected) sampleOutline).run (.new [])).1 = .ok off ∧
    on.methods.names = ["run", "__construct"] ∧ on.properties.names = ["x", "y"] ∧
    on.constants.names = ["C", "c"] ∧ on.interfaces = ["I", "J"] ∧
    KeepsSource sampleOutline on ∧ OnlySource sampleOutline off ∧
    Extends sampleOutline reflected off on := by
  have hvalues : (sampleReflected.toDecl >>= fun reflected =>
      ((buildClass true "a.php" (some reflected) sampleOutline).run (.new [])).1.map fun on =>
        (on.methods.names, on.properties.names, on.constants.names, on.interfaces))
      = .ok (["run", "__construct"], ["x", "y"], ["C", "c"], ["I", "J"]) := by decide +kernel
  obtain ⟨reflected, hc, hvalues⟩ := bind_eq_ok.mp hvalues
  obtain ⟨on, hon, hnames⟩ := exists_of_map_eq_ok hvalues
  obtain ⟨hmethods, hproperties, hconstants, hinterfaces⟩ := by
    simpa only [Prod.mk.injEq] using hnames
  have hsound : Doc.Reader.Sound (Doc.Reader.new []).readers (.new []) := ⟨rfl, Memo.holds_empty⟩
  obtain ⟨hoff, hall⟩ := buildClass_conservative hc hsound hsound "a.php" sampleOutline
  obtain ⟨hkeeps, off, hbuilt, hextends⟩ := hall on hon
  exact ⟨reflected, on, off, hc, hon, hbuilt, hmethods, hproperties, hconstants,
    hinterfaces, hkeeps,
    (hoff off hbuilt).2, hextends⟩

end Analysis

end TypeFacts
