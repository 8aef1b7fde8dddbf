import TypeFacts.Proofs.Analysis.Precedence
import TypeFacts.Proofs.Analysis.Provenance

/-!
# All records are coherent

The record of a class is made in one of three ways: from its source alone, from its source and what
reflection says, or from reflection alone; the report of a file is made from its source. Each way of
making a record gives a coherent one (`Analysis.coherent_buildClass`,
`Analysis.coherent_reflectedClass`, `Analysis.coherent_buildFile`).

A session keeps nothing that was not made in one of these ways (`Session.Traced`), whatever was done
with it before, so everything it gives is coherent (`Session.records_coherent`). No condition on the
parser, on the files or on the reflection data is needed.
-/

namespace TypeFacts

namespace Analysis

/-! ### Functions -/

/-- A parameter of the source keeps its position. -/
theorem position_sourceParameter (scope : Scope) (doc : DocBlock) (reflected : Option ParamDecl)
    (p : ParamOutline) :
    Yields (sourceParameter scope doc reflected p) (·.position = p.position) := by
  intro d hd
  obtain ⟨documented, -, hd⟩ := bind_eq_ok.mp hd
  rw [← Except.ok.inj hd]

theorem position_reflectedParameter (doc : DocBlock) (p : ParamDecl) :
    Yields (reflectedParameter doc p) (·.position = p.position) := by
  intro q hq
  rw [reflectedParameter_eq_ok hq]

/-- A function of the source keeps its name and the positions of its parameters. -/
theorem positions_sourceFunction (name : String) (scope : Scope) (file : String)
    (reflected : Option FunctionDecl) (f : FunctionOutline) :
    Always (fun d => d.name = name ∧ d.positions = f.parameters.map (·.position))
      (sourceFunction name scope file reflected f) := by
  refine (always_true _).bind fun doc _ => ?_
  refine Ensures.bind (Ensures.mapM_map fun p _ =>
    always_of_yields (position_sourceParameter scope doc _ p)) fun parameters hparameters => ?_
  exact (always_true _).bind fun documented _ => ensures_pure ⟨rfl, hparameters⟩

/-- So does a reflected function. -/
theorem positions_reflectedFunction (f : FunctionDecl) :
    Always (fun d => d.name = f.name ∧ d.positions = f.positions) (reflectedFunction f) := by
  refine (always_true _).bind fun doc _ => ?_
  refine Ensures.bind (Ensures.mapM_map fun p _ =>
    always_of_yields (position_reflectedParameter doc p)) fun parameters hparameters => ?_
  exact (always_true _).bind fun documented _ => ensures_pure ⟨rfl, hparameters⟩

/-- A function with the positions of an outline is numbered where the outline is. -/
theorem numbered_of_positions {f : FunctionOutline} {d : FunctionDecl} (hf : f.Numbered)
    (h : d.positions = f.parameters.map (·.position)) : d.Numbered := by
  have hlength : d.parameters.length = f.parameters.length := by
    simpa [FunctionDecl.positions] using congrArg List.length h
  rw [FunctionDecl.Numbered, h, hf, hlength]

/-- A reflected method keeps its name and the order of its parameters. -/
theorem ordered_reflectedMethod {m : MethodDecl} (hm : m.Ordered) :
    Always (fun d => d.name = m.name ∧ d.Ordered) (reflectedMethod m) := by
  refine (positions_reflectedFunction m.toFunctionDecl).bind fun f hf => ensures_pure ⟨hf.1, ?_⟩
  rw [FunctionDecl.Ordered, hf.2]
  exact hm

/-! ### Methods -/

/-- A method of the source belongs to its class. -/
theorem ownedBy_sourceMethod {cls : ClassOutline} (file : String) (reflected : Option MethodDecl)
    {m : FunctionOutline} (hm : m.Numbered) :
    Always (fun d => d.name = m.name ∧ d.OwnedBy cls.name) (sourceMethod cls file reflected m) := by
  refine (positions_sourceFunction _ _ _ _ m).bind fun f hf => ensures_pure ⟨hf.1, rfl, ?_⟩
  exact numbered_of_positions hm hf.2

/-- The table has the methods of a class of the source, and no others where there is
no reflection. -/
structure MethodsOf (cls : ClassOutline) (reflected : Option ClassDecl) (t : Table MethodDecl) :
    Prop where
  named : t.Named (·.name)
  ordered : ∀ d ∈ t.values, d.Ordered
  owned : ∀ m ∈ cls.methods, ∃ d, t.get? m.name = some d ∧ d.OwnedBy cls.name
  only : reflected = none → ∀ d ∈ t.values, d.OwnedBy cls.name

variable {cls : ClassOutline} {reflected : Option ClassDecl}

/-- A row of methods of the source, and behind it methods with other names. -/
theorem methodsOf_ofList {own others : List (String × MethodDecl)}
    (hnames : own.map Prod.fst = cls.methods.map (·.name))
    (hown : ∀ e ∈ own, e.2.name = e.1 ∧ e.2.OwnedBy cls.name)
    (hothers : ∀ e ∈ others, (e.2.name = e.1 ∧ e.2.Ordered) ∧ ∀ m ∈ cls.methods, m.name ≠ e.1)
    (hnone : reflected = none → others = []) :
    MethodsOf cls reflected (Table.ofList (own ++ others)) where
  named := Table.named_ofList (List.forall_mem_append.mpr
    ⟨fun e he => (hown e he).1, fun e he => (hothers e he).1.1⟩)
  ordered := Table.forall_values_ofList (List.forall_mem_append.mpr
    ⟨fun e he => (hown e he).2.2.ordered, fun e he => (hothers e he).1.2⟩)
  owned m hm := by
    have hmem : m.name ∈ (Table.ofList own).names := by
      rw [Table.mem_names_ofList, hnames]
      exact List.mem_map_of_mem hm
    obtain ⟨d, hd⟩ := Option.isSome_iff_exists.mp (Table.contains_iff.mpr hmem)
    have hlisted : (m.name, d) ∈ own := Table.mem_of_mem_entries_ofList (Pairs.mem_of_get? hd)
    refine ⟨d, ?_, (hown _ hlisted).2⟩
    rw [← Table.insertAll_ofList, Table.get?_insertAll_eq_some]
    refine Or.inr ⟨fun hother => ?_, hd⟩
    obtain ⟨e, he, heq⟩ := List.mem_map.mp hother
    exact (hothers e he).2 m hm heq.symm
  only h := by
    rw [hnone h, List.append_nil]
    exact Table.forall_values_ofList fun e he => (hown e he).2

/-- What reflection says of a class, where it says anything, is coherent. -/
abbrev CoherentReflection (reflected : Option ClassDecl) : Prop :=
  ∀ r, reflected = some r → r.Coherent

/-- Methods that are looked up without regard to case have ordered parameters. -/
theorem CoherentReflection.ordered_ignoringCase (h : CoherentReflection reflected)
    {e : String × MethodDecl} (he : e ∈ (methodsIgnoringCase reflected).entries) : e.2.Ordered := by
  obtain ⟨e', he', rfl⟩ := List.mem_map.mp (Table.mem_of_mem_entries_ofList he)
  cases reflected with
  | none => cases he'
  | some r => exact (h r rfl).ordered e'.2 (List.mem_map_of_mem he')

/-- The methods of a class are those of its source, and further ones only from reflection. -/
theorem methodsOf_buildMethods (hcls : cls.Shaped) (hreflected : CoherentReflection reflected)
    (keep : Bool) (file : String) :
    Always (MethodsOf cls reflected) (buildMethods keep cls file reflected) := by
  have hlists : ListsMethods reflected := fun r hr => (hreflected r hr).methods
  refine (Ensures.mapM_named (Q := fun n d => d.name = n ∧ d.OwnedBy cls.name) fun m hm =>
    ownedBy_sourceMethod file _ (hcls.numbered m hm)).bind fun own ⟨hnames, hown⟩ => ?_
  cases keep with
  | false =>
    have hmethods : MethodsOf cls reflected (Table.ofList (own ++ [])) :=
      methodsOf_ofList hnames hown (fun e he => by cases he) fun _ => rfl
    rw [List.append_nil] at hmethods
    exact ensures_pure hmethods
  | true =>
    refine (Ensures.mapM_named (Q := fun n d => d.name = n ∧ d.Ordered) fun e he =>
      ordered_reflectedMethod (hreflected.ordered_ignoringCase (List.mem_filter.mp he).1)).bind
        fun others ⟨hnames', hothers⟩ => ensures_pure ?_
    rw [Table.insertAll_ofList]
    refine methodsOf_ofList hnames hown (fun e he => ⟨hothers e he, fun m hm hname => ?_⟩) ?_
    · have hlisted : e.1 ∈ others.map Prod.fst := List.mem_map_of_mem he
      rw [hnames'] at hlisted
      obtain ⟨known, hknown, heq⟩ := List.mem_map.mp hlisted
      obtain ⟨hknown, hnew⟩ := List.mem_filter.mp hknown
      refine hlists.name_not_mem hknown hnew ?_
      rw [heq, ← hname, Table.mem_names_ofList, hnames]
      exact List.mem_map_of_mem hm
    · rintro rfl
      exact List.map_eq_nil_iff.mp hnames'

/-! ### Properties and constants -/

/-- A property of the source keeps its name. -/
theorem name_sourceProperty (scope : Scope) (constructor : Option MethodDecl)
    (reflected : Option PropertyDecl) (p : PropertyOutline) :
    Always (·.name = p.name) (sourceProperty scope constructor reflected p) :=
  (always_true _).bind fun _ _ => (always_true _).bind fun _ _ => ensures_pure rfl

theorem name_reflectedProperty (p : PropertyDecl) :
    Always (·.name = p.name) (reflectedProperty p) :=
  (always_true _).bind fun _ _ => (always_true _).bind fun _ _ => ensures_pure rfl

/-- Properties are listed under their names. -/
theorem named_buildProperties (hreflected : CoherentReflection reflected) (keep : Bool)
    (cls : ClassOutline) (constructor : Option MethodDecl) :
    Always (Table.Named (·.name)) (buildProperties keep cls constructor reflected) := by
  refine (Ensures.mapM_named (Q := fun n d => d.name = n) fun p _ =>
    name_sourceProperty cls.scope constructor _ p).bind fun own ⟨_, hown⟩ => ?_
  cases keep with
  | false => exact ensures_pure (Table.named_ofList hown)
  | true =>
    refine (Ensures.mapM_named (Q := fun n d => d.name = n) fun e he => ?_).bind
      fun others ⟨_, hothers⟩ => ensures_pure ?_
    · have hknown := (List.mem_filter.mp he).1
      cases reflected with
      | none => cases hknown
      | some r =>
        rw [← (hreflected r rfl).properties e hknown]
        exact name_reflectedProperty e.2
    · rw [Table.insertAll_ofList]
      exact Table.named_ofList (List.forall_mem_append.mpr ⟨hown, hothers⟩)

/-- Constants are listed under their names. -/
theorem named_buildConstants (hreflected : CoherentReflection reflected) (keep : Bool)
    (cls : ClassOutline) : (buildConstants keep cls reflected).Named (·.name) := by
  have hown : ∀ e ∈ cls.constants.map fun c => (c.name, sourceConstant c), e.2.name = e.1 :=
    List.forall_mem_map.mpr fun c _ => rfl
  cases keep with
  | false => exact Table.named_ofList hown
  | true =>
    unfold buildConstants
    simp only [if_true]
    rw [Table.insertAll_ofList]
    refine Table.named_ofList (List.forall_mem_append.mpr ⟨hown, fun e he => ?_⟩)
    have hknown := (List.mem_filter.mp he).1
    cases reflected with
    | none => cases hknown
    | some r => exact (hreflected r rfl).constants e hknown

/-! ### Classes and files -/

/-- A class that is built is coherent and has all methods of its source. -/
theorem coherent_buildClass (hcls : cls.Shaped) (hreflected : CoherentReflection reflected)
    (keep : Bool) (file : String) :
    Always (fun d => d.name = cls.name ∧ d.Coherent ∧ MethodsOf cls reflected d.methods)
      (buildClass keep file reflected cls) := by
  refine (methodsOf_buildMethods hcls hreflected keep file).bind fun methods hmethods => ?_
  refine (named_buildProperties hreflected keep cls _).bind fun properties hproperties => ?_
  exact ensures_pure ⟨rfl, {
    methods := hmethods.named
    properties := hproperties
    constants := named_buildConstants hreflected keep cls
    name_eq := hcls.name_eq
    marks := hcls.marks
    ordered := hmethods.ordered }, hmethods⟩

/-- A reflected class stays coherent. -/
theorem coherent_reflectedClass {c : ClassDecl} (h : c.Coherent) :
    Always ClassDecl.Coherent (reflectedClass c) := by
  refine (Ensures.mapM_named (Q := fun n d => d.name = n ∧ d.Ordered) fun e he => ?_).bind
    fun methods ⟨_, hmethods⟩ => ?_
  · rw [← h.methods e he]
    exact ordered_reflectedMethod (h.ordered e.2 (List.mem_map_of_mem he))
  refine (Ensures.mapM_named (Q := fun n d => d.name = n) fun e he => ?_).bind
    fun properties ⟨_, hproperties⟩ => ?_
  · rw [← h.properties e he]
    exact name_reflectedProperty e.2
  exact ensures_pure { h with
    methods := Table.named_ofList fun e he => (hmethods e he).1
    properties := Table.named_ofList hproperties
    ordered := Table.forall_values_ofList fun e he => (hmethods e he).2 }

/-- The report on a file that is built is coherent. -/
theorem coherent_buildFile {outline : FileOutline} (h : outline.Shaped) (keep : Bool)
    (file : String) (faults : List SourceFault) :
    Always FileReport.Coherent (buildFile keep file faults outline) := by
  refine (Ensures.mapM_named (Q := fun n d => d.name = n ∧ d.Coherent ∧
    ∀ m ∈ d.methods.values, m.OwnedBy d.name) fun c hc => ?_).bind fun classes ⟨_, hclasses⟩ => ?_
  · have hnone : CoherentReflection none := fun r hr => by cases hr
    refine (coherent_buildClass (h.classes c hc) hnone keep file).imp
      fun d ⟨hname, hcoherent, hmethods⟩ => ⟨hname, hcoherent, ?_⟩
    rw [hname]
    exact hmethods.only rfl
  refine (Ensures.mapM_named (Q := fun n d => d.name = n ∧ d.Numbered) fun f hf => ?_).bind
    fun functions ⟨_, hfunctions⟩ => ?_
  · exact (positions_sourceFunction _ _ _ _ f).imp fun d ⟨hname, hpositions⟩ =>
      ⟨hname, numbered_of_positions (h.functions f hf) hpositions⟩
  exact ensures_pure {
    classes := Table.named_ofList fun e he => (hclasses e he).1
    functions := Table.named_ofList fun e he => (hfunctions e he).1
    coherent := Table.forall_values_ofList fun e he => (hclasses e he).2.1
    owns := Table.forall_values_ofList (P := fun c => ∀ m ∈ c.methods.values, m.OwnedBy c.name)
      fun e he => (hclasses e he).2.2
    numbered := Table.forall_values_ofList fun e he => (hfunctions e he).2 }

end Analysis

/-! ### How records are made -/

/-- The report was made from the outline of a tree. -/
def FileReport.OfSource (r : FileReport) : Prop :=
  ∃ keep file faults outline docs, FileOutline.IsRead outline ∧
    ((Analysis.buildFile keep file faults outline).run docs).1 = .ok r

/-- The record was made from a class of the outline of a tree, and from what reflection says of it,
if it says anything. -/
def ClassDecl.OfSource (d : ClassDecl) (cls : ClassOutline) : Prop :=
  ∃ keep file reflected docs, (∃ outline, FileOutline.IsRead outline ∧ cls ∈ outline.classes) ∧
    (∀ r, reflected = some r → r.IsReflected) ∧
    ((Analysis.buildClass keep file reflected cls).run docs).1 = .ok d

/-- The record was made from what reflection says of the class. -/
def ClassDecl.OfReflection (d : ClassDecl) : Prop :=
  ∃ c docs, ClassDecl.IsReflected c ∧ ((Analysis.reflectedClass c).run docs).1 = .ok d

/-- The record was made from what reflection says of the function. -/
def FunctionDecl.OfReflection (d : FunctionDecl) : Prop :=
  ∃ f docs, FunctionDecl.IsReflected f ∧ ((Analysis.reflectedFunction f).run docs).1 = .ok d

/-- The record of a class was made from its source or from reflection. It is coherent, and each
method of the source is in it, as a method of the class itself. -/
structure ClassDecl.Faithful (d : ClassDecl) : Prop extends Coherent d where
  made : d.OfReflection ∨ ∃ cls, d.OfSource cls
  owns : ∀ cls, d.OfSource cls → ∀ m ∈ cls.methods, ∃ m',
    d.methods.get? m.name = some m' ∧ m'.OwnedBy d.name

/-- A report that was made from a source is coherent. -/
theorem FileReport.OfSource.coherent {r : FileReport} (h : r.OfSource) : r.Coherent := by
  obtain ⟨keep, file, faults, outline, docs, hread, hbuild⟩ := h
  exact (Analysis.coherent_buildFile hread.shaped keep file faults docs trivial).1 r hbuild

/-- A reflected function has ordered parameters. -/
theorem FunctionDecl.OfReflection.ordered {d : FunctionDecl} (h : d.OfReflection) : d.Ordered := by
  obtain ⟨f, docs, hf, hbuild⟩ := h
  have hpositions : d.positions = f.positions :=
    ((Analysis.positions_reflectedFunction f docs trivial).1 d hbuild).2
  rw [Ordered, hpositions]
  exact hf.ordered

/-- A class that was made from a source is coherent and owns the methods of the source. -/
theorem ClassDecl.OfSource.coherent {d : ClassDecl} {cls : ClassOutline} (h : d.OfSource cls) :
    d.Coherent ∧ ∀ m ∈ cls.methods, ∃ m', d.methods.get? m.name = some m' ∧ m'.OwnedBy d.name := by
  obtain ⟨keep, file, reflected, docs, ⟨outline, hread, hcls⟩, hreflected, hbuild⟩ := h
  obtain ⟨hname, hcoherent, hmethods⟩ :=
    (Analysis.coherent_buildClass (hread.shaped.classes cls hcls)
    (fun r hr => (hreflected r hr).coherent) keep file docs trivial).1 d hbuild
  rw [hname]
  exact ⟨hcoherent, hmethods.owned⟩

/-- A class that was made by reflection is coherent. -/
theorem ClassDecl.OfReflection.coherent {d : ClassDecl} (h : d.OfReflection) : d.Coherent := by
  obtain ⟨c, docs, hc, hbuild⟩ := h
  exact (Analysis.coherent_reflectedClass hc.coherent docs trivial).1 d hbuild

/-- However a class was made, its record is faithful. -/
theorem ClassDecl.faithful_of_made {d : ClassDecl} (h : d.OfReflection ∨ ∃ cls, d.OfSource cls) :
    d.Faithful where
  toCoherent := by
    rcases h with h | ⟨cls, h⟩
    · exact h.coherent
    · exact h.coherent.1
  made := h
  owns cls hcls := hcls.coherent.2

/-! ### What sessions keep -/

namespace Session

/-- All that the session keeps was made from sources and from what reflection says. -/
structure Traced (s : Session) : Prop where
  hostClasses : s.host.classMemo.Holds fun _ => ClassDecl.IsReflected
  hostFunctions : s.host.functionMemo.Holds fun _ => FunctionDecl.IsReflected
  files : s.files.Holds fun _ => FileReport.OfSource
  classes : s.classes.Holds fun _ => ClassDecl.Faithful
  functions : s.functions.Holds fun _ => FunctionDecl.OfReflection

theorem traced_eq_keeps : Traced =
    Keeps (fun _ => True) FileReport.OfSource ClassDecl.Faithful FunctionDecl.OfReflection := by
  funext s
  exact propext ⟨fun h => { h with docs := trivial }, fun h => { h with }⟩

/-- Building makes records that can be traced back. -/
theorem builds_traced :
    Builds (fun _ => True) FileReport.OfSource ClassDecl.Faithful FunctionDecl.OfReflection where
  file _ _ _ outline hread :=
    fun docs _ => ⟨fun _ hr => ⟨_, _, _, outline, docs, hread, hr⟩, trivial⟩
  source _ _ outline cls reflected hread hcls hreflected := fun docs _ =>
    ⟨fun _ hd => ClassDecl.faithful_of_made
      (Or.inr ⟨cls, _, _, reflected, docs, ⟨outline, hread, hcls⟩, hreflected, hd⟩), trivial⟩
  reflected {c} hc := fun docs _ =>
    ⟨fun _ hd => ClassDecl.faithful_of_made (Or.inl ⟨c, docs, hc, hd⟩), trivial⟩
  function {f} hf := fun docs _ => ⟨fun _ hd => ⟨f, docs, hf, hd⟩, trivial⟩
  comment _ _ := trivial
  clear _ := trivial

/-- In a new session there is nothing that could not be traced back. -/
theorem traced_session (u : Setup) : Traced u.session := by
  rw [traced_eq_keeps]
  exact keeps_session trivial

/-- A function that is given was reflected. -/
theorem traced_analyzeFunction (name : String) :
    Ensures Traced (fun stored => stored.value.OfReflection) (analyzeFunction name) := by
  rw [traced_eq_keeps]
  exact builds_traced.analyzeFunction name

/-- A file report that is given was made from its source. -/
theorem traced_analyzeFile {tree : FileTree} (path : Path) :
    Ensures Traced (fun stored => stored.value.OfSource) (analyzeFile tree path) := by
  rw [traced_eq_keeps]
  exact builds_traced.analyzeFile path

/-- Whatever is done with a session, all that it keeps stays traced. -/
theorem invariant_traced (b : Session) :
    Invariant b (fun _ => True) FileReport.OfSource ClassDecl.Faithful Traced := by
  rw [traced_eq_keeps]
  exact builds_traced.invariant b

/-! ### All that is given -/

/-- Whatever was done with a session before, each record that it gives by any route is coherent: the
report of a file, the record of a class with or without a source file of the caller's choice, the
record of a function, and the records of targets, batches and directories. -/
theorem records_coherent (u : Setup) (history : List (FileTree × Act)) (tree : FileTree) :
    (∀ path, Yields ((analyzeFile tree path).run (after history u.session)).1
      fun stored => stored.value.Coherent) ∧
    (∀ name source, Yields ((analyzeClass tree name source).run (after history u.session)).1
      fun stored => stored.value.Faithful) ∧
    (∀ name, Yields ((analyzeFunction name).run (after history u.session)).1
      fun stored => stored.value.Ordered) ∧
    (∀ target, Yields ((analyze tree target).run (after history u.session)).1
      (Record.Meets FileReport.Coherent ClassDecl.Faithful)) ∧
    (∀ targets, Yields ((analyzeMany tree targets).run (after history u.session)).1 fun batch =>
      ∀ record ∈ batch.results.values, record.Meets FileReport.Coherent ClassDecl.Faithful) ∧
    ∀ directory, Yields ((analyzeDirectory tree directory).run (after history u.session)).1
      fun batch =>
        ∀ record ∈ batch.results.values, record.Meets FileReport.Coherent ClassDecl.Faithful := by
  have hs : Traced (after history u.session) :=
    (invariant_traced u.session).after (fun _ _ _ _ => trivial) (traced_session u)
  have hgives := (invariant_traced u.session).givesAll tree hs
  have hmeets : ∀ record : Record, record.Meets FileReport.OfSource ClassDecl.Faithful →
      record.Meets FileReport.Coherent ClassDecl.Faithful := by
    intro record h
    cases record with
    | file stored => exact FileReport.OfSource.coherent h
    | cls stored => exact h
  refine ⟨fun path stored h => ?_, fun name source => ?_, fun name stored h => ?_,
    fun target record h => ?_, fun targets batch h => ?_, fun directory batch h => ?_⟩
  · exact ((traced_analyzeFile path _ hs).1 stored h).coherent
  · exact hgives.cls name source
  · exact ((traced_analyzeFunction name _ hs).1 stored h).ordered
  · exact hmeets record (hgives.target target record h)
  · exact fun record hrecord => hmeets record (hgives.many targets batch h record hrecord)
  · exact fun record hrecord => hmeets record (hgives.directory directory batch h record hrecord)

/-- A class with a constructor that makes properties, of which its source and reflection speak. -/
theorem records_coherent_promoted : ∃ stored : Stored ClassDecl,
    ((analyzeClass (sampleTree typedFile) "A" none).run
      (after [] { typedSetup with snapshot := some textSnapshot }.session)).1 = .ok stored ∧
    stored.value.Faithful := by
  obtain ⟨decl, -, hdecl, -⟩ := typedSetup_declares
  obtain ⟨stored, hstored, -⟩ := exists_of_map_eq_ok hdecl.analysis
  obtain ⟨-, hclasses, -⟩ := records_coherent { typedSetup with snapshot := some textSnapshot } []
    (sampleTree typedFile)
  exact ⟨stored, hstored, hclasses "A" none stored hstored⟩

end Session

end TypeFacts
