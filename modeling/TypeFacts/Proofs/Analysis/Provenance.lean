import TypeFacts.Proofs.Analysis.Histories
import TypeFacts.Proofs.Outline.Shape

/-!
# Where records come from

Each record of a session is built from the outline of a source, from what reflection says, or from
both. So a condition that building gives its results from such data (`Session.Builds`) holds of all
that a session keeps (`Session.Keeps`), whatever was done with it before, and of all that it gives
by any route (`Session.Builds.givesAll`). The state of the doc comments may have a condition of its
own, which building may use and has to keep.
-/

namespace TypeFacts

namespace Session

/-- Whatever the session gives by any route meets the conditions: the report of a file, the record
of a class with or without a source file of the caller's choice, and the records of targets, batches
and directories. -/
structure GivesAll (OfFile : FileReport → Prop) (OfClass : ClassDecl → Prop) (tree : FileTree)
    (s : Session) : Prop where
  file (path : Path) : Yields ((analyzeFile tree path).run s).1 fun stored => OfFile stored.value
  cls (name : String) (source : Option Path) :
    Yields ((analyzeClass tree name source).run s).1 fun stored => OfClass stored.value
  target (name : String) : Yields ((analyze tree name).run s).1 (Record.Meets OfFile OfClass)
  many (targets : List String) : Yields ((analyzeMany tree targets).run s).1 fun batch =>
    ∀ record ∈ batch.results.values, record.Meets OfFile OfClass
  directory (d : String) : Yields ((analyzeDirectory tree d).run s).1 fun batch =>
    ∀ record ∈ batch.results.values, record.Meets OfFile OfClass

/-- What an invariant says of records holds of all that is given, by whatever route. -/
theorem Invariant.givesAll {b : Session} {OfFile : FileReport → Prop} {OfClass : ClassDecl → Prop}
    {S : Session → Prop} (hS : Invariant b (fun _ => True) OfFile OfClass S) (tree : FileTree)
    {s : Session} (hs : S s) : GivesAll OfFile OfClass tree s where
  file _ := (hS.file (fun _ _ => trivial) s hs).1
  cls _ _ := (hS.cls (fun _ _ => trivial) s hs).1
  target _ := (hS.analyze (fun _ _ => trivial) s hs).1
  many _ batch h :=
    List.forall_mem_map.mpr ((hS.many (fun _ _ _ _ => trivial) s hs).1 batch h)
  directory _ batch h :=
    List.forall_mem_map.mpr ((hS.directory (fun _ _ => trivial) s hs).1 batch h)

/-- What is known of a class beside its source, where anything is, is what reflection says of it. -/
abbrev IsLoaded (reflected : Option ClassDecl) : Prop :=
  ∀ r, reflected = some r → r.IsReflected

/-- Building gives reports of files, records of classes and records of functions that meet
conditions of their own, from outlines and from what reflection says. It does so with all doc
comments that meet a condition, and leaves such doc comments. -/
structure Builds (Docs : Doc.Reader → Prop) (OfFile : FileReport → Prop)
    (OfClass : ClassDecl → Prop) (OfFunction : FunctionDecl → Prop) : Prop where
  file (keep : Bool) (path : String) (faults : List SourceFault) {outline : FileOutline} :
    outline.IsRead → Ensures Docs OfFile (Analysis.buildFile keep path faults outline)
  source (keep : Bool) (path : String) {outline : FileOutline} {cls : ClassOutline}
    {reflected : Option ClassDecl} : outline.IsRead → cls ∈ outline.classes → IsLoaded reflected →
      Ensures Docs OfClass (Analysis.buildClass keep path reflected cls)
  reflected {c : ClassDecl} : c.IsReflected → Ensures Docs OfClass (Analysis.reflectedClass c)
  function {f : FunctionDecl} :
    f.IsReflected → Ensures Docs OfFunction (Analysis.reflectedFunction f)
  comment {docs : Doc.Reader} (text : Option String) : Docs docs → Docs (docs.block text).2
  clear {docs : Doc.Reader} : Docs docs → Docs docs.clear

/-- The doc comments, the declarations of reflection and the records that the session keeps are as
they should be. -/
structure Keeps (Docs : Doc.Reader → Prop) (OfFile : FileReport → Prop) (OfClass : ClassDecl → Prop)
    (OfFunction : FunctionDecl → Prop) (s : Session) : Prop where
  docs : Docs s.docs
  hostClasses : s.host.classMemo.Holds fun _ => ClassDecl.IsReflected
  hostFunctions : s.host.functionMemo.Holds fun _ => FunctionDecl.IsReflected
  files : s.files.Holds fun _ => OfFile
  classes : s.classes.Holds fun _ => OfClass
  functions : s.functions.Holds fun _ => OfFunction

theorem ensures_orTrouble {ε α : Type} {S : Session → Prop} (trouble : ε → Trouble)
    (x : Except ε α) :
    Ensures S (fun a => x = .ok a) (orTrouble trouble x) := by
  cases x with
  | ok a => exact ensures_pure rfl
  | error e => exact ensures_throw _

variable {Docs : Doc.Reader → Prop} {OfFile : FileReport → Prop} {OfClass : ClassDecl → Prop}
  {OfFunction : FunctionDecl → Prop} {tree : FileTree}

/-! ### What is read -/

/-- A new session keeps no records. -/
theorem keeps_session {u : Setup} (hdocs : Docs u.session.docs) :
    Keeps Docs OfFile OfClass OfFunction u.session := by
  have hmemos : u.session.host.classMemo = .empty ∧ u.session.host.functionMemo = .empty := by
    unfold Setup.session
    cases u.snapshot <;> exact ⟨rfl, rfl⟩
  refine ⟨hdocs, ?_, ?_, Memo.holds_empty, Memo.holds_empty, Memo.holds_empty⟩
  · rw [hmemos.1]
    exact Memo.holds_empty
  · rw [hmemos.2]
    exact Memo.holds_empty

/-- Building with sound comments keeps all that is kept. -/
theorem keeps_build {α : Type} {P : α → Prop} {x : Analysis.DocM α} (hx : Ensures Docs P x) :
    Ensures (Keeps Docs OfFile OfClass OfFunction) P (build x) := by
  intro s hs
  obtain ⟨hyields, hdocs⟩ := hx s.docs hs.docs
  rw [build_eq]
  exact ⟨fun a ha => hyields a (mapError_eq_ok.mp ha), { hs with docs := hdocs }⟩

theorem keeps_outline (root : Node) :
    Ensures (Keeps Docs OfFile OfClass OfFunction) FileOutline.IsRead (outline root) := by
  intro s hs
  have hrun : (outline root).run s
      = ((Outline.readTree s.functionTypes root s.types).1.mapError .badType,
        { s with types := (Outline.readTree s.functionTypes root s.types).2 }) := by
    show outline root s = _
    unfold outline
    rcases Outline.readTree s.functionTypes root s.types with ⟨_ | _, _⟩ <;> rfl
  rw [hrun]
  exact ⟨fun o ho => ⟨_, root, _, mapError_eq_ok.mp ho⟩, { hs with }⟩

/-- What is read of a file is the outline of some tree. -/
theorem keeps_readSource (path : Path) :
    Ensures (Keeps Docs OfFile OfClass OfFunction) (fun r => r.1.IsRead)
      (readSource tree path) := by
  refine (ensures_orTrouble _ _).bind fun found _ => ?_
  cases found with
  | none => exact ensures_throw _
  | some bytes =>
    refine ensures_get_bind fun s => (ensures_orTrouble _ _).bind fun source _ => ?_
    have hread : Ensures (Keeps Docs OfFile OfClass OfFunction) (fun _ => True)
        (modifyGet fun s : Session =>
          ((s.reader.read source).1, { s with reader := (s.reader.read source).2 }) : StepM _) :=
      fun s hs => ⟨fun _ _ => trivial, { hs with }⟩
    exact hread.bind fun found _ => (keeps_outline _).bind fun o ho => ensures_pure ho

/-- What the host gives for a class was reflected. -/
theorem keeps_hostClass (name : String) :
    Ensures (Keeps Docs OfFile OfClass OfFunction) ClassDecl.IsReflected (hostClass name) := by
  intro s hs
  obtain ⟨hyields, hmemo⟩ := hs.hostClasses.findOrMake_yields
    (s.host.isReflected_makeClass name) (foldedName name)
  rw [hostClass_eq]
  exact ⟨fun d hd => hyields d (mapError_eq_ok.mp hd), { hs with hostClasses := hmemo }⟩

theorem keeps_hostFunction (name : String) :
    Ensures (Keeps Docs OfFile OfClass OfFunction) FunctionDecl.IsReflected
      (hostFunction name) := by
  intro s hs
  obtain ⟨hyields, hmemo⟩ := hs.hostFunctions.findOrMake_yields
    (s.host.isReflected_makeFunction name) (foldedName name)
  rw [hostFunction_eq]
  exact ⟨fun d hd => hyields d (mapError_eq_ok.mp hd), { hs with hostFunctions := hmemo }⟩

theorem keeps_loadedClass (name : String) :
    Ensures (Keeps Docs OfFile OfClass OfFunction) IsLoaded (loadedClass name) := by
  refine ensures_get_bind fun s => ?_
  split
  · rw [map_eq_pure_bind]
    refine (keeps_hostClass name).bind fun d hd => ensures_pure fun d' h => ?_
    rwa [← Option.some.inj h]
  · exact ensures_pure fun d hd => by cases hd

/-! ### What is built -/

namespace Builds

variable (hbuilds : Builds Docs OfFile OfClass OfFunction)
include hbuilds

/-- The report on a file is of the right kind. -/
theorem fileReport (path : Path) :
    Ensures (Keeps Docs OfFile OfClass OfFunction) OfFile (fileReport tree path) := by
  refine (keeps_readSource path).bind fun r hr => ensures_get_bind fun s => ?_
  exact keeps_build (hbuilds.file _ _ _ hr)

/-- So is a class that is built from a source. -/
theorem sourceClass (path : Path) (name : String) {reflected : Option ClassDecl}
    (hreflected : IsLoaded reflected) :
    Ensures (Keeps Docs OfFile OfClass OfFunction) (fun r => ∀ d, r = some d → OfClass d)
      (sourceClass tree path name reflected) := by
  refine (ensures_orTrouble _ _).bind fun isFile _ => ?_
  split
  · refine (keeps_readSource path).bind fun ⟨outline, faults⟩ hread => ?_
    simp only
    split
    · exact ensures_pure fun d hd => by cases hd
    · next cls hfind =>
      have hcls : cls ∈ outline.classes := List.mem_of_find?_eq_some hfind
      refine ensures_get_bind fun s =>
        (keeps_build (hbuilds.source _ _ hread hcls hreflected)).bind fun d hd => ?_
      refine ensures_pure fun d' h => ?_
      rwa [← Option.some.inj h]
  · exact ensures_pure fun d hd => by cases hd

/-- So is the record of a class, wherever it comes from. -/
theorem classDecl (name : String) (file : Option Path) :
    Ensures (Keeps Docs OfFile OfClass OfFunction) OfClass (classDecl tree name file) := by
  refine (keeps_loadedClass name).bind fun reflected hreflected => ?_
  have hdeclared : Ensures (Keeps Docs OfFile OfClass OfFunction)
      (fun r => ∀ d, r = some d → OfClass d) (declaredClass tree name file reflected) := by
    refine ensures_get_bind fun s => ?_
    split
    · exact hbuilds.sourceClass _ name hreflected
    · exact ensures_pure fun d hd => by cases hd
  -- only where no source declares the class does reflection speak alone
  refine hdeclared.bind fun declared hsource => ?_
  cases declared with
  | some d => exact ensures_pure (hsource d rfl)
  | none =>
    cases reflected with
    | none => exact ensures_throw _
    | some r => exact keeps_build (hbuilds.reflected (hreflected r rfl))

theorem functionDecl (name : String) :
    Ensures (Keeps Docs OfFile OfClass OfFunction) OfFunction (functionDecl name) :=
  (keeps_hostFunction name).bind fun _ hf => keeps_build (hbuilds.function hf)

/-! ### What is kept and given -/

/-- The report that is given is of the right kind, whether it was kept or is new. -/
theorem analyzeFile (path : Path) :
    Ensures (Keeps Docs OfFile OfClass OfFunction) (fun stored => OfFile stored.value)
      (analyzeFile tree path) := by
  cases hnull : path.hasNull with
  | true =>
    rw [analyzeFile_eq_of_null hnull]
    exact ensures_throw _
  | false =>
    rw [analyzeFile_eq hnull]
    exact ensures_keeping (ensures_orFail (hbuilds.fileReport path) _) (fun _ hs => hs.files)
      (fun _ _ _ hs hr => { hs with files := hs.files.store hr }) (tree.resolve path)

/-- So is the class that is given. -/
theorem analyzeClass (name : String) (source : Option Path) :
    Ensures (Keeps Docs OfFile OfClass OfFunction) (fun stored => OfClass stored.value)
      (analyzeClass tree name source) :=
  ensures_keeping (ensures_orFail (hbuilds.classDecl name source) _) (fun _ hs => hs.classes)
    (fun _ _ _ hs hd => { hs with classes := hs.classes.store hd }) (foldedName name)

theorem analyzeFunction (name : String) :
    Ensures (Keeps Docs OfFile OfClass OfFunction) (fun stored => OfFunction stored.value)
      (analyzeFunction name) :=
  ensures_keeping (ensures_orFail (hbuilds.functionDecl name) _) (fun _ hs => hs.functions)
    (fun _ _ _ hs hd => { hs with functions := hs.functions.store hd }) (foldedName name)

/-- Whatever is done with a session, all that it keeps stays as building gives it. -/
theorem invariant (b : Session) :
    Invariant b (fun _ => True) OfFile OfClass (Keeps Docs OfFile OfClass OfFunction) where
  file _ := hbuilds.analyzeFile _
  cls _ := hbuilds.analyzeClass _ _
  function name := (hbuilds.analyzeFunction name).imp fun _ _ => trivial
  node _ := fun _ hs => ⟨fun _ _ => trivial, { hs with }⟩
  expression _ := fun _ hs => ⟨fun _ _ => trivial, { hs with }⟩
  comment text hs := { hs with docs := hbuilds.comment text hs.docs }
  clear hs := ⟨hbuilds.clear hs.docs, Memo.holds_clear _, Memo.holds_clear _, Memo.holds_clear _,
    Memo.holds_clear _, Memo.holds_clear _⟩
  glob _ := Or.inr fun _ => trivial

/-- After every history a session gives nothing but what building gives. -/
theorem givesAll {u : Setup} (hdocs : Docs u.session.docs) (history : List (FileTree × Act))
    (tree : FileTree) : GivesAll OfFile OfClass tree (after history u.session) :=
  (hbuilds.invariant u.session).givesAll tree
    ((hbuilds.invariant u.session).after (fun _ _ _ _ => trivial) (keeps_session hdocs))

end Builds

end Session

end TypeFacts
