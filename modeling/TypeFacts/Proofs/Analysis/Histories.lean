import TypeFacts.Proofs.Analysis.Source

/-!
# Histories of sessions

A history is all that was done with a session, in any order: analyses of every kind, some of which
may have failed, with files that may have changed in between, cleared or not. The state of a session
is what a history leaves of a new one (`Session.after`).

A condition on sessions that single analyses keep, and that says something of the records they give,
holds after every history, and then says the same of the records of targets, batches and directories
(`Session.Invariant`). It may ask something of the trees that are read (`Session.Act.roots`). Where
they are consistent, one such condition is that what is kept besides records is right
(`Session.invariant_primed`).
-/

namespace TypeFacts

namespace Session

/-- Something that is done with a session. -/
inductive Act where
  | call (c : Call)
  /-- Analyses a class, with a source file of the caller's choice. -/
  | source (name : String) (file : Path)
  | directory (directory : String)
  /-- Asks whether a target can be analysed. -/
  | supports (target : String)
  | clear

/-- The files below a directory that a wildcard describes, by their texts. -/
def directoryTargets (glob : String) (tree : FileTree) (directory : String) : List String :=
  match tree.filesMatching (Path.ofText directory) glob with
  | .ok found => found.map Path.text
  | .error _ => []

namespace Act

/-- The session after something was done with it while the files were as given. -/
def next (tree : FileTree) : Act → Session → Session
  | call c, s => (c.run tree s).2
  | source name file, s => (analyzeClass tree name (some file) s).2
  | directory d, s => (analyzeDirectory tree d s).2
  | supports target, s => (Session.supports tree target s).2
  | clear, s => s.clear

/-- The trees of the sources that are read, and the nodes that are given. -/
def roots (b : Session) (tree : FileTree) : Act → List Node
  | call c => c.roots b tree
  | source name file => b.classRoots tree name (some file)
  | directory d => (directoryTargets b.settings.fileGlob tree d).flatMap (b.targetRoots tree)
  | supports _ | clear => []

end Act

/-- The session after a history, in which each step goes with the files of its moment. -/
def after (history : List (FileTree × Act)) (s : Session) : Session :=
  history.foldl (fun s x => x.2.next x.1 s) s

/-- A tree that is read in a history, or a node that is given in it. -/
def ReadIn (b : Session) (history : List (FileTree × Act)) (root : Node) : Prop :=
  ∃ x ∈ history, root ∈ x.2.roots b x.1

theorem next_supports (tree : FileTree) (target : String) (s : Session) :
    Act.next tree (.supports target) s = s := by
  show ((supports tree target).run s).2 = s
  rw [supports, run_bind_apply]
  rcases tree.isFile (Path.ofText target) with e | _ | _ <;> rfl

/-! ### Conditions on records -/

/-- The value of a record of a file meets the one condition, that of a record of a class
the other. -/
def Record.Meets (OfFile : FileReport → Prop) (OfClass : ClassDecl → Prop) : Record → Prop
  | .file stored => OfFile stored.value
  | .cls stored => OfClass stored.value

/-- A condition on sessions that analyses keep, as long as the trees they read may be read. In
sessions that meet it, reports of files and records of classes meet conditions of their own. -/
structure Invariant (b : Session) (Given : Node → Prop) (OfFile : FileReport → Prop)
    (OfClass : ClassDecl → Prop) (S : Session → Prop) : Prop where
  file {tree : FileTree} {path : Path} : (∀ root ∈ b.sourceRoots tree path, Given root) →
    Ensures S (fun stored => OfFile stored.value) (analyzeFile tree path)
  cls {tree : FileTree} {name : String} {source : Option Path} :
    (∀ root ∈ b.classRoots tree name source, Given root) →
      Ensures S (fun stored => OfClass stored.value) (analyzeClass tree name source)
  function (name : String) : Ensures S (fun _ => True) (analyzeFunction name)
  node {n : Node} : Given n → Ensures S (fun _ => True) (typeOf n)
  expression {code : String} :
    Given (b.reader.tree (Utf8.encode (SourceReader.expressionSource code))) →
      Ensures S (fun _ => True) (inferType code)
  comment {s : Session} (text : Option String) : S s → S (Session.comment text s).2
  clear {s : Session} : S s → S s.clear
  /-- Unless all trees may be read, the files of a directory have to be known. -/
  glob {s : Session} : S s → s.settings.fileGlob = b.settings.fileGlob ∨ ∀ n, Given n

section Ensures

variable {S : Session → Prop} {α : Type} {P : α → Prop}

/-- A steady computation keeps a session sound. -/
theorem ensures_of_steady {ε : Type} {x : ExceptT ε (StateM Session) α} (h : Steady S x.run) :
    Ensures S (fun _ => True) x :=
  fun _ hs => ⟨fun _ _ => trivial, h.sound hs⟩

theorem ensures_throw {ε : Type} (e : ε) : Ensures S P (throw e : ExceptT ε (StateM Session) α) :=
  fun _ hs => ⟨yields_error e, hs⟩

theorem ensures_get_bind {ε : Type} {f : Session → ExceptT ε (StateM Session) α}
    (h : ∀ s, Ensures S P (f s)) : Ensures S P (get >>= f) := by
  intro s hs
  rw [run_get_bind]
  exact h s s hs

theorem ensures_orStop {ε : Type} (trouble : ε → Trouble) (x : Except ε α) :
    Ensures S (fun a => x = .ok a) (orStop trouble x) := by
  cases x with
  | ok a => exact ensures_pure rfl
  | error e => exact ensures_throw _

/-- Naming a failure changes no record. -/
theorem ensures_orFail {step : StepM α} (h : Ensures S P step)
    (failure : Library → Trouble → Failure) : Ensures S P (orFail failure step) := by
  intro s hs
  obtain ⟨hyields, hsound⟩ := h s hs
  rw [orFail_eq]
  exact ⟨fun a ha => hyields a (mapError_eq_ok.mp ha), hsound⟩

/-- Records that are kept meet a condition where those do that an analysis gives. -/
theorem ensures_keeping {κ : Type} [DecidableEq κ] {memo : Session → Memo κ α}
    {withMemo : Session → Memo κ α → Session} {analysis : RunM α} (h : Ensures S P analysis)
    (hmemo : ∀ s, S s → (memo s).Holds fun _ => P)
    (hwith : ∀ s key record, S s → P record → S (withMemo s ((memo s).store key record).2))
    (key : κ) : Ensures S (fun stored => P stored.value) (keeping memo withMemo key analysis) := by
  intro s hs
  obtain ⟨hyields, hsound⟩ := h s hs
  cases hfind : (memo s).find? key with
  | some stored =>
    rw [keeping_of_find hfind]
    exact ⟨yields_ok (hmemo s hs key stored hfind), hs⟩
  | none =>
    rw [keeping_of_none hfind]
    rcases hrun : analysis.run s with ⟨stop | record, s'⟩
    all_goals rw [hrun] at hyields hsound
    · exact ⟨yields_error stop, hsound⟩
    · have hrecord : P record := hyields record rfl
      exact ⟨yields_ok hrecord, hwith s' key record hsound hrecord⟩

end Ensures

/-! ### From single analyses to all that is done -/

namespace Invariant

variable {b : Session} {Given : Node → Prop} {OfFile : FileReport → Prop}
  {OfClass : ClassDecl → Prop} {S : Session → Prop} (hS : Invariant b Given OfFile OfClass S)
  {tree : FileTree} {s : Session}
include hS

/-- A target gives records of the kind that the invariant is about. -/
theorem analyze {target : String} (hroots : ∀ root ∈ b.targetRoots tree target, Given root) :
    Ensures S (Record.Meets OfFile OfClass) (analyze tree target) := by
  unfold targetRoots at hroots
  cases hfile : tree.isFile (Path.ofText target) with
  | error e =>
    rw [analyze_eq_of_fault hfile]
    exact ensures_throw _
  | ok isFile =>
    rw [hfile] at hroots
    cases isFile with
    | true =>
      rw [analyze_eq_of_file hfile]
      exact (hS.file hroots).bind fun stored hstored => ensures_pure hstored
    | false =>
      rw [analyze_eq_of_not_file hfile]
      refine ensures_get_bind fun s => ?_
      split
      · exact (hS.cls hroots).bind fun stored hstored => ensures_pure hstored
      · exact ensures_throw _

/-- One more target leaves the records of a batch as they should be. -/
theorem analyzeNext {target : String} (hroots : ∀ root ∈ b.targetRoots tree target, Given root)
    {batch : Batch} (hbatch : ∀ e ∈ batch.results.entries, Record.Meets OfFile OfClass e.2) :
    Ensures S (fun more => ∀ e ∈ more.results.entries, Record.Meets OfFile OfClass e.2)
      (analyzeNext tree batch target) := by
  intro s hs
  obtain ⟨hyields, hsound⟩ := hS.analyze hroots s hs
  show Yields (Session.analyzeNext tree batch target s).1 _ ∧
    S (Session.analyzeNext tree batch target s).2
  unfold Session.analyzeNext
  rcases hrun : Session.analyze tree target s with ⟨stop | record, s'⟩
  all_goals
    rw [show (Session.analyze tree target).run s = Session.analyze tree target s from rfl, hrun]
      at hyields hsound
  · cases stop with
    | failed f => exact ⟨yields_ok hbatch, hsound⟩
    | trouble t => exact ⟨yields_error _, hsound⟩
  · refine ⟨yields_ok fun e he => ?_, hsound⟩
    rcases Pairs.mem_set he with rfl | he
    · exact hyields record rfl
    · exact hbatch e he

/-- A batch of targets gives such records only. -/
theorem many {targets : List String}
    (hroots : ∀ target ∈ targets, ∀ root ∈ b.targetRoots tree target, Given root) :
    Ensures S (fun batch => ∀ e ∈ batch.results.entries, Record.Meets OfFile OfClass e.2)
      (analyzeMany tree targets) :=
  Ensures.foldlM (fun _ hbatch target ht => hS.analyzeNext (hroots target ht) hbatch)
    fun e he => by cases he

/-- So does a directory. -/
theorem directory {d : String} (hroots : ∀ root ∈ (Act.directory d).roots b tree, Given root) :
    Ensures S (fun batch => ∀ e ∈ batch.results.entries, Record.Meets OfFile OfClass e.2)
      (analyzeDirectory tree d) := by
  refine (ensures_orStop _ _).bind fun found _ => ?_
  cases found with
  | none => exact ensures_throw _
  | some place =>
    intro s hs
    rw [run_get_bind]
    refine (ensures_orStop _ _).bind (fun files hfiles => hS.many ?_) s hs
    intro target htarget root hroot
    rcases hS.glob hs with hglob | hall
    · have htargets : directoryTargets b.settings.fileGlob tree d = files.map Path.text := by
        rw [directoryTargets, ← hglob, hfiles]
      exact hroots root (List.mem_flatMap.mpr ⟨target, htargets ▸ htarget, hroot⟩)
    · exact hall root

/-- Every call keeps the invariant. -/
theorem run {c : Call} (hroots : ∀ root ∈ c.roots b tree, Given root) (hs : S s) :
    S (c.run tree s).2 := by
  cases c with
  | target t => exact (hS.analyze hroots s hs).2
  | file path => exact (hS.file hroots s hs).2
  | cls name => exact (hS.cls hroots s hs).2
  | function name => exact (hS.function name s hs).2
  | many ts =>
    exact (hS.many
      (fun t ht root hroot => hroots root (List.mem_flatMap.mpr ⟨t, ht, hroot⟩)) s hs).2
  | node n => exact (hS.node (hroots n List.mem_cons_self) s hs).2
  | expression code => exact (hS.expression (hroots _ List.mem_cons_self) s hs).2
  | comment text => exact hS.comment text hs

/-- Every act keeps the invariant. -/
theorem next {a : Act} (hroots : ∀ root ∈ a.roots b tree, Given root) (hs : S s) :
    S (a.next tree s) := by
  cases a with
  | call c => exact hS.run hroots hs
  | source name file =>
    have hgiven : ∀ root ∈ b.classRoots tree name (some file), Given root := hroots
    exact (hS.cls hgiven s hs).2
  | directory d => exact (hS.directory hroots s hs).2
  | supports target =>
    rw [next_supports]
    exact hs
  | clear => exact hS.clear hs

/-- Step by step, the condition goes through a history. -/
theorem after {history : List (FileTree × Act)}
    (hroots : ∀ x ∈ history, ∀ root ∈ x.2.roots b x.1, Given root) (hs : S s) :
    S (after history s) := by
  induction history generalizing s with
  | nil => exact hs
  | cons x history ih =>
    have hfirst : S (x.2.next x.1 s) := hS.next (hroots x List.mem_cons_self) hs
    exact ih (fun y hy => hroots y (List.mem_cons_of_mem x hy)) hfirst

end Invariant

/-! ### What is kept besides records -/

section Primed

variable {b : Session} {Trees : Node → Prop} {S : Session → Prop} {u : Setup} {tree : FileTree}

/-- Records play no part in whether a session is primed. -/
theorem Primed.withRecords {s : Session} (hs : Primed b Trees s) (files : Memo Path FileReport)
    (classes : Memo String ClassDecl) (functions : Memo String FunctionDecl) :
    Primed b Trees { s with files := files, classes := classes, functions := functions } :=
  { hs with }

theorem Primed.clear {s : Session} (hs : Primed b Trees s) : Primed b Trees s.clear where
  parser_eq := hs.parser_eq
  settings_eq := hs.settings_eq
  functionTypes_eq := hs.functionTypes_eq
  library_eq := hs.library_eq
  host := ⟨hs.host.loaded_eq, Memo.holds_clear _, Memo.holds_clear _⟩
  docs := ⟨hs.docs.readers_eq, Memo.holds_clear _⟩
  types := Memo.holds_clear _

/-- A new session is primed. -/
theorem primed_session : Primed u.session Trees u.session := by
  have hsound : Sound u.session Trees {} (fun _ => True) u.session := sound_session
  exact hsound.toPrimed

section Framed

variable (hS : Framed (Primed b Trees) S)
include hS

/-- Where a condition says nothing of the reports of files, an analysis of a file keeps it. -/
theorem ensures_analyzeFile (hfiles : ∀ s m, S s → S { s with files := m })
    (htrees : Node.Consistent (Node.Among Trees)) {path : Path}
    (hroots : ∀ root ∈ b.sourceRoots tree path, Trees root) :
    Ensures S (fun _ => True) (analyzeFile tree path) := by
  cases hnull : path.hasNull with
  | true =>
    rw [analyzeFile_eq_of_null hnull]
    exact ensures_throw _
  | false =>
    rw [analyzeFile_eq hnull]
    have hreport : Ensures S (fun _ => True) (fileReport tree path) :=
      ensures_of_steady (steady_fileReport hS htrees hroots)
    exact ensures_keeping (P := fun _ => True) (ensures_orFail hreport _)
      (fun _ _ _ _ _ => trivial) (fun s _ _ hs _ => hfiles s _ hs) (tree.resolve path)

theorem ensures_analyzeFunction (hfunctions : ∀ s m, S s → S { s with functions := m })
    (name : String) : Ensures S (fun _ => True) (analyzeFunction name) := by
  have hdecl := ensures_of_steady (steady_functionDecl hS name)
  exact ensures_keeping (P := fun _ => True) (ensures_orFail hdecl _) (fun _ _ _ _ _ => trivial)
    (fun s _ _ hs _ => hfunctions s _ hs) (foldedName name)

end Framed

/-- What is kept besides records stays right, whatever is done with consistent trees. -/
theorem invariant_primed (htrees : Node.Consistent (Node.Among Trees)) :
    Invariant b Trees (fun _ => True) (fun _ => True) (Primed b Trees) where
  file hroots :=
    ensures_analyzeFile (framed_self _) (fun _ _ hs => hs.withRecords _ _ _) htrees hroots
  cls {tree name source} hroots := by
    have hdecl : Ensures (Primed b Trees) (fun _ => True) (classDecl tree name source) :=
      ensures_of_steady (steady_classDecl (framed_self _) htrees hroots)
    exact ensures_keeping (P := fun _ => True) (ensures_orFail hdecl _) (fun _ _ _ _ _ => trivial)
      (fun s _ _ hs _ => hs.withRecords _ _ _) (foldedName name)
  function name := ensures_analyzeFunction (framed_self _) (fun _ _ hs => hs.withRecords _ _ _) name
  node hn := ensures_of_steady (steady_typeOf (framed_self _) htrees (Node.among_root hn))
  expression hroot := ensures_of_steady (steady_inferType htrees (framed_self _) hroot)
  comment text hs := (gives_comment (framed_self _) text _ hs).2
  clear hs := hs.clear
  glob hs := Or.inl (congrArg Settings.fileGlob hs.settings_eq)

end Primed

end Session

end TypeFacts
