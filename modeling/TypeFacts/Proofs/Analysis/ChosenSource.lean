import TypeFacts.Proofs.Analysis.Batches
import TypeFacts.Proofs.Analysis.Precedence

/-!
# The source file that a caller chooses

A class may be analysed with a source file of the caller's choice. But records of classes are kept
by folded name alone: what is kept for a class is the record of the first analysis that succeeded
since the session was last cleared, whatever source it used (`Session.analyzeClass_after`). So the
choice counts exactly where no earlier analysis of the class with another source has succeeded.
There the record is the one that a new session gives, and it names the chosen file
(`Session.analyzeClass_of_chosen_source`). Otherwise it may well be that of another file
(`Session.chosen_source_ignored`).
-/

namespace TypeFacts

namespace Session

/-! ### Which classes were asked for -/

/-- What a new session gives for a class. -/
def alone (u : Setup) (tree : FileTree) (name : String) (file : Option Path) :
    Except Stop ClassDecl :=
  (byValue Stored.value (analyzeClass tree name file) u.session).1

/-- The classes that targets ask for, each with its chosen source. A target whose path cannot be
followed is the last that is looked at. -/
def targetClasses (tree : FileTree) : List String → List (String × Option Path)
  | [] => []
  | target :: targets =>
    match tree.isFile (Path.ofText target) with
    | .error _ => []
    | .ok true => targetClasses tree targets
    | .ok false => (target, none) :: targetClasses tree targets

/-- The classes that are asked for in one step. -/
def Act.classes (tree : FileTree) (settings : Settings) : Act → List (String × Option Path)
  | .call (.target target) => targetClasses tree [target]
  | .call (.cls name) => [(name, none)]
  | .call (.many targets) => targetClasses tree targets
  | .source name file => [(name, some file)]
  | .directory d =>
    match tree.directory? (Path.ofText d), tree.filesMatching (Path.ofText d) settings.fileGlob with
    | .ok (some _), .ok found => targetClasses tree (found.map Path.text)
    | _, _ => []
  | _ => []

/-- The classes that were asked for since the session was last cleared, with one step more. -/
def Act.asked (tree : FileTree) (settings : Settings) (before : List (String × Option Path)) :
    Act → List (String × Option Path)
  | .clear => []
  | a => before ++ a.classes tree settings

/-- The record of the first analysis of a class that succeeds. -/
def firstRecord (u : Setup) (tree : FileTree) (asked : List (String × Option Path)) (key : String) :
    Option ClassDecl :=
  asked.findSome? fun x => if foldedName x.1 = key then (alone u tree x.1 x.2).toOption else none

section

variable {u : Setup} {Trees : Node → Prop} {tree : FileTree} {asked : List (String × Option Path)}
  {s : Session}

/-- The first record comes from the earlier questions, if they gave one. -/
theorem firstRecord_append (more : List (String × Option Path)) (key : String) :
    firstRecord u tree (asked ++ more) key
      = (firstRecord u tree asked key).or (firstRecord u tree more key) :=
  List.findSome?_append

theorem firstRecord_singleton (x : String × Option Path) (key : String) :
    firstRecord u tree [x] key
      = if foldedName x.1 = key then (alone u tree x.1 x.2).toOption else none := by
  rw [firstRecord, List.findSome?_singleton]

/-- Asked alone, a class gives what its record is made of. -/
theorem alone_eq (name : String) (file : Option Path) : alone u tree name file
    = ((classDecl tree name file).run u.session).1.mapError
        fun t => .failed (.ofTrouble name u.library t) := by
  rw [alone, analyzeClass, byValue_keeping rfl, orFail_eq]
  rfl

/-! ### What is kept -/

/-- What is kept besides records is right, and the records of classes are those of the analyses that
succeeded first. -/
structure Recorded (u : Setup) (Trees : Node → Prop) (tree : FileTree)
    (asked : List (String × Option Path)) (s : Session) :
    Prop extends Primed u.session Trees s where
  classes (key : String) : (s.classes.find? key).map Stored.value = firstRecord u tree asked key

/-- Steps that leave the records alone change nothing about what was recorded. -/
theorem framed_recorded : Framed (Primed u.session Trees) (Recorded u Trees tree asked) where
  base hs := hs.toPrimed
  keep hs hs' hrecords := { hs' with classes := classes_eq_of_records_eq hrecords ▸ hs.classes }

/-- In a new session nothing is recorded. -/
theorem recorded_session : Recorded u Trees tree [] u.session where
  toPrimed := primed_session
  classes _ := rfl

/-- Questions that give no record may be added. -/
theorem Recorded.of_firstRecord_eq {more : List (String × Option Path)}
    (hs : Recorded u Trees tree asked s) (h : ∀ key, firstRecord u tree more key = none) :
    Recorded u Trees tree (asked ++ more) s where
  toPrimed := hs.toPrimed
  classes key := by rw [hs.classes, firstRecord_append, h, Option.or_none]

variable (htrees : Node.Consistent (Node.Among Trees)) (hs : Recorded u Trees tree asked s)
include htrees hs

/-- An analysis of a class gives the record of the first that succeeded, this one included, and this
stays true. -/
theorem Recorded.analyzeClass {name : String} {file : Option Path}
    (hroots : ∀ root ∈ u.session.classRoots tree name file, Trees root) :
    ((analyzeClass tree name file).run s).1.map Stored.value
      = (firstRecord u tree asked (foldedName name)).elim (alone u tree name file) .ok ∧
    Recorded u Trees tree (asked ++ [(name, file)]) ((analyzeClass tree name file).run s).2 := by
  have hkept := hs.classes (foldedName name)
  have hmore : ∀ key, firstRecord u tree (asked ++ [(name, file)]) key
      = (firstRecord u tree asked key).or
        (if foldedName name = key then (alone u tree name file).toOption else none) := by
    intro key
    rw [firstRecord_append, firstRecord_singleton]
  cases hfind : s.classes.find? (foldedName name) with
  | some stored =>
    rw [hfind, Option.map_some] at hkept
    rw [Session.analyzeClass, keeping_of_find hfind, ← hkept]
    refine ⟨rfl, { hs with classes := fun key => ?_ }⟩
    rw [hs.classes, hmore]
    by_cases hkey : foldedName name = key
    · rw [← hkey, ← hkept]
      rfl
    · rw [if_neg hkey, Option.or_none]
  | none =>
    rw [hfind, Option.map_none] at hkept
    have hsame : ((classDecl tree name file).run s).1
        = ((classDecl tree name file).run u.session).1 :=
      (steady_classDecl (framed_self _) htrees hroots).eq hs.toPrimed primed_session
    have hsound : Recorded u Trees tree asked ((classDecl tree name file).run s).2 :=
      (steady_classDecl framed_recorded htrees hroots).sound hs
    rw [← hkept, alone_eq]
    rcases hrun : (classDecl tree name file).run s with ⟨t | decl, s'⟩
    all_goals rw [hrun] at hsame hsound
    · rw [Session.analyzeClass, keeping_of_error hfind hrun, hs.library_eq, ← hsame]
      refine ⟨rfl, hsound.of_firstRecord_eq fun key => ?_⟩
      rw [firstRecord_singleton, alone_eq, ← hsame]
      split <;> rfl
    · rw [Session.analyzeClass, keeping_of_ok hfind hrun, ← hsame]
      refine ⟨rfl, { hsound.withRecords _ _ _ with classes := fun key => ?_ }⟩
      show ((s'.classes.store (foldedName name) decl).2.find? key).map Stored.value = _
      rw [Memo.find?_store, hmore, alone_eq, ← hsame]
      by_cases hkey : foldedName name = key
      · rw [if_pos hkey, if_pos hkey, ← hkey, ← hkept]
        rfl
      · rw [if_neg hkey, if_neg hkey, Option.or_none]
        exact hsound.classes key

/-- To analyze a file records no class. -/
theorem Recorded.analyzeFile {path : Path}
    (hroots : ∀ root ∈ u.session.sourceRoots tree path, Trees root) :
    Recorded u Trees tree asked ((analyzeFile tree path).run s).2 :=
  (ensures_analyzeFile framed_recorded
    (fun _ _ hs => { hs.withRecords _ _ _ with classes := hs.classes }) htrees hroots s hs).2

omit htrees hs in
/-- Behind a blocked target a batch asks for nothing. -/
theorem targetClasses_of_blocked {target : String} {fault : PathFault}
    (h : tree.Blocked (Path.ofText target) fault) (targets : List String) :
    targetClasses tree (target :: targets) = [] := by
  rw [targetClasses, FileTree.isFile_eq_error_iff.mpr h]

/-- A target records a class if it is one. -/
theorem Recorded.analyze {target : String}
    (hroots : ∀ root ∈ u.session.targetRoots tree target, Trees root) :
    Recorded u Trees tree (asked ++ targetClasses tree [target])
      ((analyze tree target).run s).2 := by
  unfold targetRoots at hroots
  by_cases hreach : Unreachable tree target
  · obtain ⟨fault, hblocked⟩ := hreach
    rw [analyze_run_of_blocked hblocked, targetClasses_of_blocked hblocked, List.append_nil]
    exact hs
  rcases isFile_of_not_unreachable hreach with hfile | hfile
  all_goals
    rw [hfile] at hroots
    rw [targetClasses, hfile]
  · rw [analyze_run_of_file hfile]
    simp only [targetClasses, List.append_nil]
    exact hs.analyzeFile htrees hroots
  · cases hloaded : s.host.isLoaded target with
    | true =>
      rw [analyze_run_of_loaded hfile hloaded]
      exact (hs.analyzeClass htrees hroots).2
    | false =>
      rw [analyze_run_of_missing hfile hloaded]
      refine hs.of_firstRecord_eq fun key => ?_
      rw [targetClasses, firstRecord_singleton, alone_eq,
        classDecl_of_not_loaded ((hs.host.isLoaded_eq target).symm.trans hloaded)]
      split <;> rfl

omit htrees hs in
/-- A target that can be reached asks for its class before the others ask for theirs. -/
theorem targetClasses_cons {target : String} (h : ¬Unreachable tree target)
    (targets : List String) : targetClasses tree (target :: targets)
      = targetClasses tree [target] ++ targetClasses tree targets := by
  rcases isFile_of_not_unreachable h with hfile | hfile
  all_goals simp only [targetClasses, hfile, List.nil_append, List.singleton_append]

/-- Target by target, a batch goes through the classes that it asks for. -/
theorem Recorded.many {targets : List String}
    (hroots : ∀ target ∈ targets, ∀ root ∈ u.session.targetRoots tree target, Trees root) :
    Recorded u Trees tree (asked ++ targetClasses tree targets)
      ((analyzeMany tree targets).run s).2 := by
  have hfrom : ∀ given : List (String × Except Stop Record),
      Recorded u Trees tree (asked ++ targetClasses tree targets)
        ((targets.foldlM (analyzeNext tree) (Batch.ofOutcomes given)).run s).2 := by
    induction targets generalizing asked s with
    | nil =>
      intro given
      rw [targetClasses, List.append_nil]
      exact hs
    | cons target targets ih =>
      intro given
      rw [List.foldlM_cons, run_bind_apply]
      by_cases hreach : Unreachable tree target
      · obtain ⟨fault, hblocked⟩ := hreach
        rw [analyzeNext_of_blocked _ hblocked, targetClasses_of_blocked hblocked, List.append_nil]
        exact hs
      · rw [analyzeNext_ofOutcomes given hreach, targetClasses_cons hreach, ← List.append_assoc]
        exact ih (hs.analyze htrees (hroots target List.mem_cons_self))
          (fun later hlater => hroots later (List.mem_cons_of_mem target hlater)) _
  exact hfrom []

/-- A directory asks for what its targets ask for. -/
theorem Recorded.directory {d : String}
    (hroots : ∀ root ∈ (Act.directory d).roots u.session tree, Trees root) :
    Recorded u Trees tree (asked ++ Act.classes tree u.settings (.directory d))
      ((analyzeDirectory tree d).run s).2 := by
  have hsettings : s.settings = u.settings := hs.settings_eq
  rw [analyzeDirectory, Act.classes, run_bind_apply]
  rcases tree.directory? (Path.ofText d) with e | _ | place
  · exact hs.of_firstRecord_eq fun _ => rfl
  · exact hs.of_firstRecord_eq fun _ => rfl
  · show Recorded u Trees tree _ (((get >>= fun s : Session =>
      orStop .badPath (tree.filesMatching (Path.ofText d) s.settings.fileGlob) >>= fun found =>
        analyzeMany tree (found.map Path.text)) : RunM Batch).run s).2
    rw [run_get_bind, run_bind_apply, hsettings]
    rcases hfound : tree.filesMatching (Path.ofText d) u.settings.fileGlob with e | found
    · exact hs.of_firstRecord_eq fun _ => rfl
    · have htargets :
          directoryTargets u.session.settings.fileGlob tree d = found.map Path.text := by
        rw [directoryTargets, show u.session.settings = u.settings from rfl, hfound]
      refine hs.many htrees fun target htarget root hroot => ?_
      exact hroots root (List.mem_flatMap.mpr ⟨target, htargets ▸ htarget, hroot⟩)

/-- One step keeps account of the classes that were asked for. -/
theorem Recorded.next {a : Act} (hroots : ∀ root ∈ a.roots u.session tree, Trees root) :
    Recorded u Trees tree (a.asked tree u.settings asked) (a.next tree s) := by
  have hnothing : ∀ {s'}, Recorded u Trees tree asked s' →
      Recorded u Trees tree (asked ++ []) s' := by
    intro s' hs'
    rwa [List.append_nil]
  cases a with
  | call c =>
    cases c with
    | target target => exact hs.analyze htrees hroots
    | file path => exact hnothing (hs.analyzeFile htrees hroots)
    | cls name => exact (hs.analyzeClass htrees hroots).2
    | function name =>
      have hfunction := ensures_analyzeFunction framed_recorded
        (fun _ _ hs => { hs.withRecords _ _ _ with classes := hs.classes }) name s hs
      exact hnothing hfunction.2
    | many targets =>
      refine hs.many htrees fun target htarget root hroot => ?_
      exact hroots root (List.mem_flatMap.mpr ⟨target, htarget, hroot⟩)
    | node n =>
      have hn : Node.Among Trees n := Node.among_root (hroots n List.mem_cons_self)
      exact hnothing ((steady_typeOf framed_recorded htrees hn).sound hs)
    | expression code =>
      have hroot := hroots _ List.mem_cons_self
      exact hnothing ((steady_inferType htrees framed_recorded hroot).sound hs)
    | comment text => exact hnothing (gives_comment framed_recorded text s hs).2
  | source name file =>
    have hgiven : ∀ root ∈ u.session.classRoots tree name (some file), Trees root := hroots
    exact (hs.analyzeClass htrees hgiven).2
  | directory d => exact hs.directory htrees hroots
  | supports target =>
    rw [next_supports]
    exact hnothing hs
  | clear => exact { hs.clear with classes := fun _ => rfl }

/-- Step by step, a history keeps account of the classes that were asked for. -/
theorem Recorded.after {acts : List Act}
    (hroots : ∀ a ∈ acts, ∀ root ∈ a.roots u.session tree, Trees root) :
    Recorded u Trees tree (acts.foldl (Act.asked tree u.settings) asked)
      (after (acts.map (Prod.mk tree)) s) := by
  induction acts generalizing asked s with
  | nil => exact hs
  | cons a acts ih =>
    exact ih (hs.next htrees (hroots a List.mem_cons_self)) fun b hb =>
      hroots b (List.mem_cons_of_mem a hb)

end

/-! ### The choice counts where nothing else came first -/

section

variable {u : Setup} {tree : FileTree} {name : String} {path : Path}

/-- What is kept for a class is the record of the first analysis that succeeded. -/
theorem analyzeClass_after {Trees : Node → Prop} (htrees : Node.Consistent (Node.Among Trees))
    {acts : List Act} (hacts : ∀ a ∈ acts, ∀ root ∈ a.roots u.session tree, Trees root)
    {file : Option Path} (hroots : ∀ root ∈ u.session.classRoots tree name file, Trees root) :
    (byValue Stored.value (analyzeClass tree name file)
        (after (acts.map (Prod.mk tree)) u.session)).1
      = (firstRecord u tree (acts.foldl (Act.asked tree u.settings) []) (foldedName name)).elim
        (alone u tree name file) .ok :=
  ((recorded_session.after htrees hacts).analyzeClass htrees hroots).1

/-- A first record was given to one of the questions, asked alone. -/
theorem firstRecord_eq_some {asked : List (String × Option Path)} {key : String} {decl : ClassDecl}
    (h : firstRecord u tree asked key = some decl) :
    ∃ x ∈ asked, foldedName x.1 = key ∧ alone u tree x.1 x.2 = .ok decl := by
  obtain ⟨x, hx, hrecord⟩ := List.exists_of_findSome?_eq_some h
  split at hrecord
  · next hkey =>
    cases halone : alone u tree x.1 x.2 with
    | error stop =>
      rw [halone] at hrecord
      cases hrecord
    | ok d =>
      rw [halone] at hrecord
      obtain rfl := Option.some.inj hrecord
      exact ⟨x, hx, hkey, halone⟩
  · cases hrecord

/-- A class that is given under one name is given under all that fold alike. -/
theorem alone_of_foldedName_eq {name' : String} (h : foldedName name = foldedName name')
    {file : Option Path} {decl : ClassDecl} (hdecl : alone u tree name file = .ok decl) :
    alone u tree name' file = .ok decl :=
  analyzeClass_eq_ok.mpr (classDecl_of_foldedName_eq h (analyzeClass_eq_ok.mp hdecl))

/-- A record that is made from the chosen file names it. -/
theorem file_of_alone {outline : FileOutline} {faults : List SourceFault} {decl : ClassDecl}
    (hread : ((readSource tree path).run u.session).1 = .ok (outline, faults))
    (hdeclares : (outline.findClass? name).isSome = true)
    (h : alone u tree name (some path) = .ok decl) : decl.file = some path.text := by
  have hdecl := analyzeClass_eq_ok.mp h
  obtain ⟨cls, hcls⟩ := Option.isSome_iff_exists.mp hdeclares
  obtain ⟨reflected, s', hloaded, -⟩ := exists_of_run_bind hdecl
  obtain ⟨host, hstate⟩ := loadedClass_state name u.session
  rw [hloaded] at hstate
  obtain rfl : s' = { u.session with host := host } := hstate
  have hread' := (readSource_withHost tree path u.session host).trans hread
  rw [classDecl_of_source hloaded rfl hread' hcls] at hdecl
  exact (Analysis.buildClass_header (mapError_eq_ok.mp hdecl)).2.2.2.2.2

/-- Whatever was done before, a class gives what is kept for it, from the first analysis that
succeeded; where none succeeded with another source, the chosen source counts, as it does in a new
session; and the record then names the chosen file if this declares the class. -/
theorem analyzeClass_of_chosen_source (u : Setup) (tree : FileTree) (acts : List Act)
    (name : String) (path : Path) (htrees : Node.Consistent
      (Node.Among (ReadIn u.session ((acts ++ [Act.source name path]).map (Prod.mk tree))))) :
    (byValue Stored.value (analyzeClass tree name (some path))
        (after (acts.map (Prod.mk tree)) u.session)).1
      = (firstRecord u tree (acts.foldl (Act.asked tree u.settings) []) (foldedName name)).elim
        (alone u tree name (some path)) .ok ∧
    ((∀ x ∈ acts.foldl (Act.asked tree u.settings) [], foldedName x.1 = foldedName name →
        x.2 ≠ some path → ∀ decl, alone u tree x.1 x.2 ≠ .ok decl) →
      (byValue Stored.value (analyzeClass tree name (some path))
          (after (acts.map (Prod.mk tree)) u.session)).1 = alone u tree name (some path)) ∧
    ∀ outline faults decl, ((readSource tree path).run u.session).1 = .ok (outline, faults) →
      (outline.findClass? name).isSome = true → alone u tree name (some path) = .ok decl →
      decl.file = some path.text := by
  have hacts : ∀ a ∈ acts ++ [Act.source name path], ∀ root ∈ a.roots u.session tree,
      ReadIn u.session ((acts ++ [Act.source name path]).map (Prod.mk tree)) root :=
    fun a ha root hroot => ⟨(tree, a), List.mem_map_of_mem ha, hroot⟩
  have hroots : ∀ root ∈ u.session.classRoots tree name (some path),
      ReadIn u.session ((acts ++ [Act.source name path]).map (Prod.mk tree)) root :=
    hacts (.source name path) (List.mem_append_right _ List.mem_cons_self)
  have hlaw := analyzeClass_after htrees (fun a ha => hacts a (List.mem_append_left _ ha)) hroots
  refine ⟨hlaw, fun hearlier => ?_, fun outline faults decl => file_of_alone⟩
  rw [hlaw]
  cases hfirst : firstRecord u tree (acts.foldl (Act.asked tree u.settings) [])
    (foldedName name) with
  | none => rfl
  | some decl =>
    -- the first success came from the same source, perhaps for another spelling of the name
    obtain ⟨x, hx, hkey, halone⟩ := firstRecord_eq_some hfirst
    have hsource : x.2 = some path := by
      by_contra hother
      exact hearlier x hx hkey hother decl halone
    rw [hsource] at halone
    exact (alone_of_foldedName_eq hkey halone).symm

end

/-! ### A class that two files declare -/

/-- Two files that declare the class. -/
def twoFiles : FileTree :=
  .ofFiles [(⟨"", ["a.php"]⟩, Utf8.encode (Sketch.source sampleFile)),
    (⟨"", ["b.php"]⟩, Utf8.encode (Sketch.source sampleFile))]

/-- A program without reflection. -/
def sourceSetup : Setup where
  parser := Sketch.parser [sampleFile]

/-- The class was analysed with the first file, then the session was cleared; since then there were
analyses of the class that failed, and one with the second file under another spelling. -/
def sourceActs : List Act :=
  [.source "A" ⟨"", ["a.php"]⟩, .clear, .source "A" ⟨"", ["c.php"]⟩, .call (.node literalNode),
    .source "\\a" ⟨"", ["b.php"]⟩, .call (.many ["a.php", "A"]), .directory "."]

/-- Of the questions before, none gives the class from another file, and the chosen file
declares it. -/
theorem sourceActs_values :
    (∀ x ∈ sourceActs.foldl (Act.asked twoFiles sourceSetup.settings) [],
      foldedName x.1 = foldedName "A" → x.2 ≠ some ⟨"", ["b.php"]⟩ →
        (alone sourceSetup twoFiles x.1 x.2).toOption = none) ∧
    (((readSource twoFiles ⟨"", ["b.php"]⟩).run sourceSetup.session).1.map
      fun r => (r.1.findClass? "A").isSome) = .ok true ∧
    (alone sourceSetup twoFiles "A" (some ⟨"", ["b.php"]⟩)).map (·.name) = .ok "A" := by
  decide +kernel

/-- All trees that the acts read are among those of the sample. -/
theorem sourceActs_roots :
    ∀ x ∈ (sourceActs ++ [Act.source "A" ⟨"", ["b.php"]⟩]).map (Prod.mk twoFiles),
      ∀ root ∈ x.2.roots sourceSetup.session x.1, root ∈ sampleRoots := by
  decide +kernel

/-- The chosen file counts although the class was analysed with another one before the session
was cleared. -/
theorem analyzeClass_of_chosen_source_cleared :
    Node.Consistent (Node.Among (ReadIn sourceSetup.session
      ((sourceActs ++ [Act.source "A" ⟨"", ["b.php"]⟩]).map (Prod.mk twoFiles)))) ∧
    ∃ decl : ClassDecl, (byValue Stored.value (analyzeClass twoFiles "A" (some ⟨"", ["b.php"]⟩))
      (after (sourceActs.map (Prod.mk twoFiles)) sourceSetup.session)).1 = .ok decl ∧
        decl.file = some "b.php" := by
  have htrees : Node.Consistent (Node.Among (ReadIn sourceSetup.session
      ((sourceActs ++ [Act.source "A" ⟨"", ["b.php"]⟩]).map (Prod.mk twoFiles)))) :=
    sample_consistent.mono fun root ⟨x, hx, hroot⟩ => sourceActs_roots x hx root hroot
  obtain ⟨hearlier, hdeclares, hname⟩ := sourceActs_values
  obtain ⟨-, hhonoured, hfile⟩ := analyzeClass_of_chosen_source sourceSetup twoFiles sourceActs "A"
    ⟨"", ["b.php"]⟩ htrees
  obtain ⟨⟨outline, faults⟩, hread, hcls⟩ := exists_of_map_eq_ok hdeclares
  obtain ⟨decl, hdecl, -⟩ := exists_of_map_eq_ok hname
  refine ⟨htrees, decl, (hhonoured fun x hx hkey hother d hd => ?_).trans hdecl,
    hfile outline faults decl hread hcls hdecl⟩
  have hnone := hearlier x hx hkey hother
  rw [hd] at hnone
  cases hnone

/-- With the first file asked for first, the second file is ignored. And where trees disagree
about the parts of one text, a class that fails in a new session may succeed after another file
was read. -/
theorem chosen_source_ignored :
    (byValue Stored.value (analyzeClass twoFiles "A" (some ⟨"", ["b.php"]⟩))
      (after [(twoFiles, .source "A" ⟨"", ["a.php"]⟩)] sourceSetup.session)).1.toOption.map (·.file)
        = some (some "a.php") ∧
    (alone sourceSetup twoFiles "A" (some ⟨"", ["b.php"]⟩)).toOption.map (·.file)
      = some (some "b.php") ∧
    (byValue Stored.value (analyzeClass creationTree "A" (some ⟨"", ["a.php"]⟩))
      (after [(creationTree, .call (.target "b.php"))] creationSetup.session)).1.toOption.map
        (·.file)
        = some (some "a.php") ∧
    (alone creationSetup creationTree "A" (some ⟨"", ["a.php"]⟩)).toOption = none := by
  decide +kernel

end Session

end TypeFacts
