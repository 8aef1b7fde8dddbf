import TypeFacts.Proofs.Analysis.Precedence
import TypeFacts.Proofs.Analysis.Provenance

/-!
# The types of properties and the comments beside them

The record of a property holds a type and a doc comment. Where the source declares no type, the
first `var` tag of this comment should decide it, in the scope of the class where the property
stands in the source and as written where only reflection knows it (`PropertyDecl.Follows`).

It does, with one exception. A property of the source without a comment of its own borrows that of
reflection, and nothing is read in a borrowed comment: the type is then that of the parameter of
which the constructor makes the property, or else the reflected one (`Analysis.SourceRule`). So it
goes for every record of a property that a session gives by any route, whatever was done with it
before (`Session.property_types_ruled`); and a borrowed comment may contradict the type beside it
(`Session.borrowed_comment_contradicts`).
-/

namespace TypeFacts

/-! ### Records of properties -/

namespace Analysis

variable {readers : Table Doc.TagReader}

/-- The first `var` tag of the comment gives the type: its text resolves to it in the scope, or is
read as written where there is none. -/
def VarGives (readers : Table Doc.TagReader) (scope : Option Scope) (comment : Option String)
    (t : Ty) :
    Prop :=
  ∃ text, ((Doc.blockOf readers comment).firstTag? "var").bind DocTag.type = some text ∧
    scope.elim (TypeText.parse text) (TypeText.resolve · text) = .ok (some t)

theorem varGives_iff {scope : Option Scope} {comment : Option String} {t : Ty} :
    VarGives readers scope comment t ↔
      docType scope (((Doc.blockOf readers comment).firstTag? "var").bind DocTag.type)
        = .ok (some t) :=
  docType_eq_some.symm

end Analysis

/-- The type of the property is the one that its comment gives, where it gives one. -/
def PropertyDecl.Follows (readers : Table Doc.TagReader) (scope : Option Scope) (d : PropertyDecl) :
    Prop :=
  ∀ t, Analysis.VarGives readers scope d.docComment t → d.type = some t

namespace Analysis

variable {readers : Table Doc.TagReader} {r : Doc.Reader}

/-- How the comment and the type of a property of the source come about. The comment decides the
type, unless it is borrowed. -/
structure SourceRule (readers : Table Doc.TagReader) (scope : Scope)
    (constructor : Option MethodDecl) (reflected : Option PropertyDecl) (p : PropertyOutline)
    (d : PropertyDecl) : Prop where
  comment : d.docComment = p.docComment.or (reflected.bind (·.docComment))
  declared : ∀ t, p.declaredType = some t → d.type = some t
  follows : p.declaredType = none → d.docComment = p.docComment → d.Follows readers (some scope)
  borrowed : p.declaredType = none → p.docComment = none →
    d.type = (promotedType constructor p.name).or (reflected.bind (·.type))

/-- How the comment and the type of a property that only reflection knows come about. -/
structure ReflectedRule (readers : Table Doc.TagReader) (reflected d : PropertyDecl) : Prop where
  comment : d.docComment = reflected.docComment
  follows : d.Follows readers none
  undocumented : (∀ t, ¬VarGives readers none d.docComment t) → d.type = reflected.type

theorem docComment_sourceProperty (scope : Scope) (constructor : Option MethodDecl)
    (reflected : Option PropertyDecl) (p : PropertyOutline) :
    Always (fun d => d.docComment = p.docComment.or (reflected.bind (·.docComment)))
      (sourceProperty scope constructor reflected p) :=
  (always_true _).bind fun _ _ => (always_true _).bind fun _ _ => ensures_pure rfl

theorem sourceProperty_rule {scope : Scope} {constructor : Option MethodDecl}
    {reflected : Option PropertyDecl} {p : PropertyOutline} {d : PropertyDecl}
    (hr : Doc.Reader.Sound readers r)
    (h : ((sourceProperty scope constructor reflected p).run r).1 = .ok d) :
    SourceRule readers scope constructor reflected p d := by
  obtain ⟨own, hown, htype⟩ := (sourceProperty_eq_ok hr h).1
  refine ⟨(docComment_sourceProperty _ _ _ p r trivial).1 d h, ?_, ?_, ?_⟩
  · intro t ht
    rw [htype, ht]
    rfl
  · intro hdeclared hcomment t ht
    rw [hcomment, varGives_iff] at ht
    have hsome : own = some t := Except.ok.inj (hown.symm.trans ht)
    rw [htype, hdeclared, hsome]
    rfl
  · intro hdeclared hcomment
    -- without a comment there is no tag
    have hnone : own = none := by
      rw [varTag?, hcomment] at hown
      exact (Except.ok.inj hown).symm
    rw [htype, hdeclared, hnone]
    rfl

theorem reflectedProperty_rule {p d : PropertyDecl} (hr : Doc.Reader.Sound readers r)
    (h : ((reflectedProperty p).run r).1 = .ok d) : ReflectedRule readers p d := by
  obtain ⟨doc, r₁, hdoc, hr₁, h⟩ := (gives_docBlock _).exists_of_bind hr h
  obtain rfl := Except.ok.inj hdoc
  obtain ⟨documented, r₂, hdocumented, -, h⟩ := (gives_pure _).exists_of_bind hr₁ h
  obtain rfl := Except.ok.inj h
  refine ⟨rfl, ?_, ?_⟩
  · intro t ht
    have hsome : documented = some t := Except.ok.inj (hdocumented.symm.trans (varGives_iff.mp ht))
    rw [hsome]
    rfl
  · intro hnot
    have hnone : documented = none :=
      Option.eq_none_iff_forall_ne_some.mpr fun t ht => hnot t (varGives_iff.mpr (ht ▸ hdocumented))
    rw [hnone]
    rfl

/-! ### The properties of a class -/

variable {keep : Bool} {cls : ClassOutline} {reflected : Option ClassDecl}

/-- A property of a class was made of the last one of the source with its name, or else of the one
that reflection has under this name. -/
theorem buildProperties_origin {constructor : Option MethodDecl} {properties : Table PropertyDecl}
    (hr : Doc.Reader.Sound readers r)
    (h : ((buildProperties keep cls constructor reflected).run r).1 = .ok properties)
    {name : String} {d : PropertyDecl} (hd : properties.get? name = some d) :
    (∃ p, LastNamed PropertyOutline.name cls.properties p ∧ p.name = name ∧
      SourceRule readers cls.scope constructor (reflected.bind (·.properties.get? name)) p d) ∨
    (∀ p ∈ cls.properties, p.name ≠ name) ∧ ∃ c other, reflected = some c ∧
      c.properties.get? name = some other ∧ ReflectedRule readers other d := by
  obtain ⟨own, hown, h⟩ := buildProperties_eq_ok hr h
  have hsource : (Table.ofList own).get? name = some d → ∃ p,
      LastNamed PropertyOutline.name cls.properties p ∧ p.name = name ∧
        SourceRule readers cls.scope constructor (reflected.bind (·.properties.get? name)) p d := by
    intro hget
    obtain ⟨p, hlast, rfl, hp⟩ := exists_lastNamed_of_get? hown hget
    exact ⟨p, hlast, rfl, sourceProperty_rule hr hp⟩
  cases keep with
  | false =>
    obtain rfl := h
    exact Or.inl (hsource hd)
  | true =>
    obtain ⟨others, hothers, rfl⟩ := h
    rcases Table.get?_insertAll_eq_some.mp hd with ⟨before, after, heq, -⟩ | ⟨-, hget⟩
    · -- members of reflection are added only under names that the source does not have
      have hmem : (name, d) ∈ others := heq ▸ List.mem_append_right _ List.mem_cons_self
      obtain ⟨e, he, hmade⟩ := exists_of_mem_mapM hothers hmem
      obtain ⟨d', hd', hmade⟩ := bind_eq_ok.mp hmade
      obtain ⟨rfl, rfl⟩ := Prod.mk.inj (Except.ok.inj hmade)
      obtain ⟨hknown, hnew⟩ := List.mem_filter.mp he
      refine Or.inr ⟨fun p hp hname => ?_, ?_⟩
      · have hlisted : e.1 ∈ (Table.ofList own).names :=
          (mem_names_of_mapM hown e.1).mpr (hname ▸ List.mem_map_of_mem hp)
        simp [Table.contains_iff.mpr hlisted] at hnew
      · cases reflected with
        | none => cases hknown
        | some c =>
          exact ⟨c, e.2, rfl, Pairs.get?_of_mem c.properties.nodup hknown,
            reflectedProperty_rule hr hd'⟩
    · exact Or.inl (hsource hget)

/-- The properties of a class that only reflection knows are made of those that it lists. -/
theorem reflectedClass_eq_ok {c d : ClassDecl} (hr : Doc.Reader.Sound readers r)
    (h : ((reflectedClass c).run r).1 = .ok d) : ∃ pairs,
      c.properties.entries.mapM (fun e => do return (e.1, ← ((reflectedProperty e.2).run r).1))
        = .ok pairs ∧ d.properties = Table.ofList pairs := by
  obtain ⟨methods, r₁, -, hr₁, h⟩ := (gives_mapM_named (fun e : String × MethodDecl => e.1)
    (fun e => (steady_reflectedMethod e.2).gives hr) _).exists_of_bind hr h
  obtain ⟨properties, r₂, hproperties, -, h⟩ := (gives_mapM_named
    (fun e : String × PropertyDecl => e.1)
    (fun e => (steady_reflectedProperty e.2).gives hr) _).exists_of_bind hr₁ h
  obtain rfl := Except.ok.inj h
  exact ⟨properties, hproperties, rfl⟩

theorem reflectedClass_origin {c d : ClassDecl} (hr : Doc.Reader.Sound readers r)
    (h : ((reflectedClass c).run r).1 = .ok d) :
    (∀ name, name ∈ d.properties.names ↔ name ∈ c.properties.names) ∧
    ∀ name q, d.properties.get? name = some q →
      ∃ other, c.properties.get? name = some other ∧ ReflectedRule readers other q := by
  obtain ⟨pairs, hpairs, hproperties⟩ := reflectedClass_eq_ok hr h
  rw [hproperties]
  refine ⟨mem_names_of_mapM hpairs, fun name q hq => ?_⟩
  obtain ⟨e, hlast, rfl, he⟩ := exists_lastNamed_of_get? hpairs hq
  exact ⟨e.2, Pairs.get?_of_mem c.properties.nodup hlast.mem, reflectedProperty_rule hr he⟩

end Analysis

/-! ### Records of classes -/

namespace ClassDecl

/-- The record was built from a class of the outline of a tree, and from what reflection says of it,
if it says anything, with doc comments that the readers read. -/
def FromSource (readers : Table Doc.TagReader) (d : ClassDecl) (cls : ClassOutline)
    (reflected : Option ClassDecl) : Prop :=
  (∃ outline, FileOutline.IsRead outline ∧ cls ∈ outline.classes) ∧ Session.IsLoaded reflected ∧
    ∃ keep file docs, Doc.Reader.Sound readers docs ∧
      ((Analysis.buildClass keep file reflected cls).run docs).1 = .ok d

/-- The record was built from what reflection says of the class, with doc comments that the
readers read. -/
def FromReflection (readers : Table Doc.TagReader) (d c : ClassDecl) : Prop :=
  c.IsReflected ∧ ∃ docs, Doc.Reader.Sound readers docs ∧
    ((Analysis.reflectedClass c).run docs).1 = .ok d

/-- The record was built in one of these ways, no property is missing, and each has its comment and
its type by the rule for where it comes from. -/
structure PropertiesRuled (readers : Table Doc.TagReader) (d : ClassDecl) : Prop where
  made : (∃ c, d.FromReflection readers c) ∨ ∃ cls reflected, d.FromSource readers cls reflected
  source : ∀ cls reflected, d.FromSource readers cls reflected →
    (∀ p ∈ cls.properties, p.name ∈ d.properties.names) ∧
    ∀ name q, d.properties.get? name = some q →
      (∃ p, LastNamed PropertyOutline.name cls.properties p ∧ p.name = name ∧
        Analysis.SourceRule readers cls.scope (d.methods.values.find? (·.isConstructor))
          (reflected.bind (·.properties.get? name)) p q) ∨
      (∀ p ∈ cls.properties, p.name ≠ name) ∧ ∃ c other, reflected = some c ∧
        c.properties.get? name = some other ∧ Analysis.ReflectedRule readers other q
  reflection : ∀ c, d.FromReflection readers c →
    (∀ name, name ∈ d.properties.names ↔ name ∈ c.properties.names) ∧
    ∀ name q, d.properties.get? name = some q →
      ∃ other, c.properties.get? name = some other ∧ Analysis.ReflectedRule readers other q

variable {readers : Table Doc.TagReader} {d : ClassDecl}

theorem propertiesRuled_of_made
    (h : (∃ c, d.FromReflection readers c) ∨ ∃ cls reflected, d.FromSource readers cls reflected) :
    d.PropertiesRuled readers where
  made := h
  source := by
    rintro cls reflected ⟨-, hloaded, keep, file, docs, hdocs, hbuild⟩
    constructor
    · intro p hp
      have hlists : Analysis.ListsMethods reflected := fun c hc => (hloaded c hc).coherent.methods
      obtain ⟨p', hlast, hname⟩ := exists_lastNamed (List.mem_map_of_mem hp)
      obtain ⟨q, hq, -⟩ := Analysis.buildClass_property hdocs hlists hbuild hlast
      rw [← hname]
      exact Table.contains_iff.mp (Option.isSome_iff_exists.mpr ⟨q, hq⟩)
    · intro name q hq
      exact Analysis.buildProperties_origin hdocs (Analysis.buildClass_eq_ok hdocs hbuild).2.1 hq
  reflection := by
    rintro c ⟨-, docs, hdocs, hbuild⟩
    exact Analysis.reflectedClass_origin hdocs hbuild

end ClassDecl

/-! ### All that sessions give -/

/-- The classes of the report were built from sources alone, and their properties are ruled. -/
def FileReport.PropertiesRuled (readers : Table Doc.TagReader) (r : FileReport) : Prop :=
  ∀ d ∈ r.classes.values, (∃ cls, d.FromSource readers cls none) ∧ d.PropertiesRuled readers

theorem Analysis.ensures_of_steadyBuild {readers : Table Doc.TagReader} {α : Type} {x : DocM α}
    (h : SteadyBuild readers x) : Ensures (Doc.Reader.Sound readers)
      (fun a => ∃ docs, Doc.Reader.Sound readers docs ∧ (x.run docs).1 = .ok a) x :=
  fun r hr => ⟨fun _ ha => ⟨r, hr, ha⟩, h.sound hr⟩

namespace Session

theorem builds_propertiesRuled (readers : Table Doc.TagReader) :
    Builds (Doc.Reader.Sound readers) (FileReport.PropertiesRuled readers)
      (ClassDecl.PropertiesRuled readers) (fun _ => True) where
  file keep path faults outline hread := by
    refine (Ensures.mapM_named (Q := fun _ d =>
      (∃ cls, d.FromSource readers cls none) ∧ d.PropertiesRuled readers) fun c hc => ?_).bind
        fun classes ⟨_, hclasses⟩ => ?_
    · refine (Analysis.ensures_of_steadyBuild (Analysis.steady_buildClass keep path none c)).imp ?_
      rintro d ⟨docs, hdocs, hbuild⟩
      have hsource : d.FromSource readers c none :=
        ⟨⟨outline, hread, hc⟩, fun _ h => (by cases h), keep, path, docs, hdocs, hbuild⟩
      exact ⟨⟨c, hsource⟩, ClassDecl.propertiesRuled_of_made (Or.inr ⟨c, none, hsource⟩)⟩
    · refine (Analysis.ensures_of_steadyBuild (Analysis.steady_mapM_named
        (fun f => Analysis.steady_sourceFunction _ _ _ _ f) _)).bind fun functions _ => ?_
      exact ensures_pure (Table.forall_values_ofList hclasses)
  source keep path outline cls reflected hread hcls hreflected := by
    refine (Analysis.ensures_of_steadyBuild
      (Analysis.steady_buildClass keep path reflected cls)).imp ?_
    rintro d ⟨docs, hdocs, hbuild⟩
    exact ClassDecl.propertiesRuled_of_made (Or.inr ⟨cls, reflected, ⟨outline, hread, hcls⟩,
      hreflected, keep, path, docs, hdocs, hbuild⟩)
  reflected {c} hc := by
    refine (Analysis.ensures_of_steadyBuild (Analysis.steady_reflectedClass c)).imp ?_
    rintro d ⟨docs, hdocs, hbuild⟩
    exact ClassDecl.propertiesRuled_of_made (Or.inl ⟨c, hc, docs, hdocs, hbuild⟩)
  function {f} _ :=
    (Analysis.ensures_of_steadyBuild (Analysis.steady_reflectedFunction f)).imp fun _ _ => trivial
  comment text hdocs := (Doc.Reader.gives_block text _ hdocs).2
  clear hdocs := ⟨hdocs.readers_eq, Memo.holds_clear _⟩

/-- Whatever was done with a session before, in each record that it gives by any route the comment
of a property decides its type where the source declares none, unless the comment is borrowed from
reflection for a property of the source. -/
theorem property_types_ruled (u : Setup) (history : List (FileTree × Act)) (tree : FileTree) :
    GivesAll (FileReport.PropertiesRuled u.session.docs.readers)
      (ClassDecl.PropertiesRuled u.session.docs.readers) tree (after history u.session) :=
  (builds_propertiesRuled _).givesAll ⟨rfl, Memo.holds_empty⟩ history tree

/-! ### A class with a borrowed comment -/

/-- A file with a class of two properties, of which the second has a comment. -/
def commentedFile : List Sketch :=
  Sketch.file [.cls "A" [.blank " ", .property [] "x", .blank " ",
    .leaf "comment" "/** @var int */", .blank " ", .property [] "y", .blank " "]]

/-- A session that knows the file. Reflection has a comment for the first property, and for it both
properties hold texts. -/
def commentedSetup : Setup where
  parser := Sketch.parser [commentedFile]
  snapshot := some ⟨[{ sampleClass with properties :=
    [{ textProperty "x" with docComment := some "/** @var int */" }, textProperty "y"] }], []⟩

/-- The outline of the class. -/
def commentedClass : ClassOutline where
  name := "A"
  shortName := "A"
  ns := ""
  kind := .cls
  properties := [{ name := "x" }, { name := "y", docComment := some "/** @var int */" }]
  line := some 2

/-- The file was analysed before, so that the comment of the source is kept. -/
def commentedHistory : List (FileTree × Act) :=
  [(sampleTree commentedFile, .call (.file ⟨"", ["a.php"]⟩))]

/-- The outline of the class, the comments and types of its properties, and the type that the
comment gives. -/
theorem commentedSetup_values :
    ((readSource (sampleTree commentedFile) ⟨"", ["a.php"]⟩).run commentedSetup.session).1.map
      (fun r => r.1.findClass? "A") = .ok (some commentedClass) ∧
    ((analyzeClass (sampleTree commentedFile) "A" none).run
      (after commentedHistory commentedSetup.session)).1.map
        (fun stored => ["x", "y"].map fun name =>
          (stored.value.properties.get? name).map fun q => (q.docComment, q.type))
        = .ok [some (some "/** @var int */", some (.scalar .string false)),
          some (some "/** @var int */", some (.scalar .int false))] ∧
    ((Doc.blockOf commentedSetup.session.docs.readers
      (some "/** @var int */")).firstTag? "var").bind DocTag.type = some "int" ∧
    TypeText.resolve {} "int" = .ok (some (.scalar .int false)) := by
  decide +kernel

theorem commentedSetup_analysis : ∃ (stored : Stored ClassDecl) (x y : PropertyDecl),
    ((analyzeClass (sampleTree commentedFile) "A" none).run
      (after commentedHistory commentedSetup.session)).1 = .ok stored ∧
    (stored.value.properties.get? "x" = some x ∧ x.type = some (.scalar .string false) ∧
      Analysis.VarGives commentedSetup.session.docs.readers (some commentedClass.scope) x.docComment
        (.scalar .int false)) ∧
    stored.value.properties.get? "y" = some y ∧ y.type = some (.scalar .int false) ∧
      Analysis.VarGives commentedSetup.session.docs.readers (some commentedClass.scope) y.docComment
        (.scalar .int false) := by
  obtain ⟨-, hanalysis, htag⟩ := commentedSetup_values
  obtain ⟨stored, hstored, hvalues⟩ := exists_of_map_eq_ok hanalysis
  simp only [List.map_cons, List.map_nil, List.cons.injEq, and_true, Option.map_eq_some_iff,
    Prod.mk.injEq] at hvalues
  obtain ⟨⟨x, hx, hxcomment, hxtype⟩, y, hy, hycomment, hytype⟩ := hvalues
  refine ⟨stored, x, y, hstored, ⟨hx, hxtype, ?_⟩, hy, hytype, ?_⟩
  · rw [hxcomment]
    exact ⟨"int", htag⟩
  · rw [hycomment]
    exact ⟨"int", htag⟩

/-- With a comment of its own in the source, the second property has the type that the
comment gives. -/
theorem property_types_ruled_commented : ∃ (stored : Stored ClassDecl) (y : PropertyDecl),
    ((analyzeClass (sampleTree commentedFile) "A" none).run
      (after commentedHistory commentedSetup.session)).1 = .ok stored ∧
    stored.value.PropertiesRuled commentedSetup.session.docs.readers ∧
    stored.value.properties.get? "y" = some y ∧ y.type = some (.scalar .int false) ∧
      Analysis.VarGives commentedSetup.session.docs.readers (some commentedClass.scope) y.docComment
        (.scalar .int false) := by
  obtain ⟨stored, -, y, hstored, -, hy⟩ := commentedSetup_analysis
  exact ⟨stored, y, hstored, (property_types_ruled commentedSetup commentedHistory
    (sampleTree commentedFile)).cls "A" none stored hstored, hy⟩

/-- The source declares no type for the first property, and its record has a comment that gives one,
but the type in the record is the reflected one: the comment is borrowed. -/
theorem borrowed_comment_contradicts : ∃ outline faults p, ∃ (stored : Stored ClassDecl)
    (x : PropertyDecl),
    ((readSource (sampleTree commentedFile) ⟨"", ["a.php"]⟩).run commentedSetup.session).1
      = .ok (outline, faults) ∧
    outline.findClass? "A" = some commentedClass ∧
    LastNamed PropertyOutline.name commentedClass.properties p ∧ p.declaredType = none ∧
    ((analyzeClass (sampleTree commentedFile) "A" none).run
      (after commentedHistory commentedSetup.session)).1 = .ok stored ∧
    stored.value.properties.get? p.name = some x ∧
    Analysis.VarGives commentedSetup.session.docs.readers (some commentedClass.scope) x.docComment
      (.scalar .int false) ∧
    x.type = some (.scalar .string false) := by
  obtain ⟨⟨outline, faults⟩, hread, hcls⟩ := exists_of_map_eq_ok commentedSetup_values.1
  obtain ⟨stored, x, -, hstored, ⟨hx, htype, hgives⟩, -⟩ := commentedSetup_analysis
  have hlast : LastNamed PropertyOutline.name commentedClass.properties { name := "x" } :=
    ⟨[], commentedClass.properties.tail, rfl, by decide⟩
  exact ⟨outline, faults, { name := "x" }, stored, x, hread, hcls, hlast, rfl, hstored, hx, hgives,
    htype⟩

end Session

end TypeFacts
