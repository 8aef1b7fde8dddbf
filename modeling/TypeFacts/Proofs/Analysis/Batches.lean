import Mathlib.Data.List.Nodup
import TypeFacts.Proofs.Analysis.Histories
import TypeFacts.Proofs.Analysis.SameFile

/-!
# Batches

A batch goes through its targets in order. The only thing that ends it early is a target whose path
cannot be followed: it is too long, or a name on the way is, or a directory on the way may not be
searched. Whether such a target is a file is found out before failures are caught
(`Session.analyze_eq_trouble_iff`). A batch without such targets notes every target, under its own
name, with what its analysis gave at its turn (`Session.analyzeMany_eq`).

A target that is listed twice is analysed twice. Both times it gives the same
(`Session.outcomes_agree`): a record that was made is kept, and an analysis that failed fails again,
since nothing that another target leaves behind can answer for it. Therefore no target is among the
results and among the errors (`Session.analyzeMany_complete`).
-/

namespace TypeFacts

namespace Session

/-- The path that the target names cannot be followed. -/
def Unreachable (tree : FileTree) (target : String) : Prop :=
  ∃ fault, tree.Blocked (Path.ofText target) fault

variable {tree : FileTree} {target : String} {fault : PathFault} {s : Session}

/-- The lookup of a target that can be reached has an answer. -/
theorem isFile_of_not_unreachable (h : ¬Unreachable tree target) :
    tree.isFile (Path.ofText target) = .ok true ∨
      tree.isFile (Path.ofText target) = .ok false := by
  cases hfile : tree.isFile (Path.ofText target) with
  | ok isFile => cases isFile <;> simp
  | error e => exact absurd ⟨e, FileTree.isFile_eq_error_iff.mp hfile⟩ h

/-! ### What a target gives -/

/-- A target behind a blocked path fails with the fault of the path and changes nothing. -/
theorem analyze_run_of_blocked (h : tree.Blocked (Path.ofText target) fault) :
    (analyze tree target).run s = (.error (.trouble (.badPath fault)), s) := by
  rw [analyze_eq_of_fault (FileTree.isFile_eq_error_iff.mpr h)]
  rfl

/-- A target with a file is analyzed as a file. -/
theorem analyze_run_of_file (h : tree.isFile (Path.ofText target) = .ok true) :
    (analyze tree target).run s =
      (((analyzeFile tree (Path.ofText target)).run s).1.map Record.file,
        ((analyzeFile tree (Path.ofText target)).run s).2) := by
  rw [analyze_eq_of_file h, ← map_eq_pure_bind, run_map_apply]

/-- A target without a file is analyzed as a class if one of this name is loaded. -/
theorem analyze_run_of_loaded (h : tree.isFile (Path.ofText target) = .ok false)
    (hloaded : s.host.isLoaded target = true) :
    (analyze tree target).run s = (((analyzeClass tree target none).run s).1.map Record.cls,
      ((analyzeClass tree target none).run s).2) := by
  rw [analyze_eq_of_not_file h, run_get_bind, if_pos hloaded, ← map_eq_pure_bind, run_map_apply]

/-- A target that is neither is reported as missing. -/
theorem analyze_run_of_missing (h : tree.isFile (Path.ofText target) = .ok false)
    (hloaded : s.host.isLoaded target = false) : (analyze tree target).run s
      = (.error (.failed (.notFound target (.targetMissing target))), s) := by
  rw [analyze_eq_of_not_file h, run_get_bind, if_neg (by rw [hloaded]; decide)]
  rfl

/-- What goes wrong while a record is made is reported as a failure and never as bare trouble. -/
theorem keeping_ne_trouble {κ α : Type} [DecidableEq κ] {memo : Session → Memo κ α}
    {withMemo : Session → Memo κ α → Session} {key : κ} {failure : Library → Trouble → Failure}
    {step : StepM α} (t : Trouble) :
    ((keeping memo withMemo key (orFail failure step)).run s).1 ≠ .error (.trouble t) := by
  cases hfind : (memo s).find? key with
  | some stored =>
    rw [keeping_of_find hfind]
    simp
  | none =>
    rcases hrun : step.run s with ⟨e | record, s'⟩
    · rw [keeping_of_error hfind hrun]
      simp
    · rw [keeping_of_ok hfind hrun]
      simp

/-- Only a path that cannot be followed stops an analysis otherwise than by a failure. -/
theorem analyze_eq_trouble_iff {t : Trouble} :
    ((analyze tree target).run s).1 = .error (.trouble t) ↔
      ∃ fault, tree.Blocked (Path.ofText target) fault ∧ t = .badPath fault := by
  constructor
  · intro h
    by_cases hreach : Unreachable tree target
    · obtain ⟨fault, hblocked⟩ := hreach
      rw [analyze_run_of_blocked hblocked] at h
      exact ⟨fault, hblocked, (Stop.trouble.inj (Except.error.inj h)).symm⟩
    · exfalso
      have hmap : ∀ {α : Type} {f : α → Record} {r : Except Stop α}, r ≠ .error (.trouble t) →
          r.map f ≠ .error (.trouble t) := by
        intro α f r hr hmapped
        cases r with
        | ok a => cases hmapped
        | error stop => exact hr (congrArg Except.error (Except.error.inj hmapped))
      rcases isFile_of_not_unreachable hreach with hfile | hfile
      · rw [analyze_run_of_file hfile, analyzeFile_eq (FileTree.hasNull_of_isFile hfile)] at h
        exact hmap (keeping_ne_trouble t) h
      · cases hloaded : s.host.isLoaded target with
        | true =>
          rw [analyze_run_of_loaded hfile hloaded] at h
          exact hmap (keeping_ne_trouble t) h
        | false =>
          rw [analyze_run_of_missing hfile hloaded] at h
          cases h
  · rintro ⟨fault, hblocked, rfl⟩
    rw [analyze_run_of_blocked hblocked]

/-- Only a target that cannot be reached ends a batch. -/
theorem unreachable_of_trouble {t : Trouble}
    (h : ((analyze tree target).run s).1 = .error (.trouble t)) : Unreachable tree target := by
  obtain ⟨fault, hblocked, -⟩ := analyze_eq_trouble_iff.mp h
  exact ⟨fault, hblocked⟩

/-! ### What a batch notes -/

/-- What the targets of a batch give, each at its turn. -/
def outcomes (tree : FileTree) : List String → Session → List (String × Except Stop Record)
  | [], _ => []
  | target :: targets, s =>
    (target, (analyze tree target s).1) :: outcomes tree targets (analyze tree target s).2

/-- The message of an analysis that failed. -/
def failureMessage? : Except Stop Record → Option String
  | .error (.failed f) => some f.message
  | _ => none

/-- The batch of what was given, one by one. -/
def Batch.ofOutcomes (given : List (String × Except Stop Record)) : Batch where
  results := Table.ofList (given.filterMap fun x => x.2.toOption.map (Prod.mk x.1))
  errors := Table.ofList (given.filterMap fun x => (failureMessage? x.2).map (Prod.mk x.1))

/-- Every target has an outcome, in the order in which the targets were listed. -/
theorem map_fst_outcomes (targets : List String) (s : Session) :
    (outcomes tree targets s).map Prod.fst = targets := by
  induction targets generalizing s with
  | nil => rfl
  | cons target targets ih => rw [outcomes, List.map_cons, ih]

/-- Targets that can be reached give records or failures. -/
theorem ne_trouble_of_mem_outcomes {targets : List String}
    (h : ∀ target ∈ targets, ¬Unreachable tree target) {x : String × Except Stop Record}
    (hx : x ∈ outcomes tree targets s) (t : Trouble) : x.2 ≠ .error (.trouble t) := by
  induction targets generalizing s with
  | nil => cases hx
  | cons target targets ih =>
    rcases List.mem_cons.mp hx with rfl | hx
    · exact fun ht => h target List.mem_cons_self (unreachable_of_trouble ht)
    · exact ih (fun t' ht' => h t' (List.mem_cons_of_mem target ht')) hx

/-- One more target is noted behind the others. -/
theorem analyzeNext_ofOutcomes (given : List (String × Except Stop Record))
    (h : ¬Unreachable tree target) : (analyzeNext tree (Batch.ofOutcomes given) target).run s
      = (.ok (Batch.ofOutcomes (given ++ [(target, (analyze tree target s).1)])),
        (analyze tree target s).2) := by
  show analyzeNext tree (Batch.ofOutcomes given) target s = _
  unfold analyzeNext
  rcases hrun : analyze tree target s with ⟨stop | record, s'⟩
  · cases stop with
    | failed f =>
      simp [Batch.ofOutcomes, ← Table.insertAll_ofList, failureMessage?, Except.toOption,
        Table.insertAll]
    | trouble t =>
      have hstop : ((analyze tree target).run s).1 = .error (.trouble t) := congrArg Prod.fst hrun
      exact absurd (unreachable_of_trouble hstop) h
  · simp [Batch.ofOutcomes, ← Table.insertAll_ofList, failureMessage?, Except.toOption,
      Table.insertAll]

/-- A blocked target ends the batch with the fault of its path. -/
theorem analyzeNext_of_blocked (batch : Batch) (h : tree.Blocked (Path.ofText target) fault) :
    (analyzeNext tree batch target).run s = (.error (.trouble (.badPath fault)), s) := by
  show analyzeNext tree batch target s = _
  unfold analyzeNext
  rw [show analyze tree target s = _ from analyze_run_of_blocked h]

/-- Step by step, a batch whose paths can be followed notes what its targets give. -/
theorem foldlM_analyzeNext {targets : List String}
    (h : ∀ target ∈ targets, ¬Unreachable tree target) (given : List (String × Except Stop Record))
    (s : Session) :
    ((targets.foldlM (analyzeNext tree) (Batch.ofOutcomes given)).run s).1
      = .ok (Batch.ofOutcomes (given ++ outcomes tree targets s)) := by
  induction targets generalizing given s with
  | nil =>
    rw [outcomes, List.append_nil]
    rfl
  | cons target targets ih =>
    have hfirst := analyzeNext_ofOutcomes (s := s) given (h target List.mem_cons_self)
    rw [List.foldlM_cons, run_bind_apply, hfirst]
    simp only
    rw [ih (fun t ht => h t (List.mem_cons_of_mem target ht)), outcomes, List.append_assoc]
    rfl

/-- A batch of targets that can be reached notes the outcome of each. -/
theorem analyzeMany_eq {targets : List String} (h : ∀ target ∈ targets, ¬Unreachable tree target)
    (s : Session) :
    ((analyzeMany tree targets).run s).1 = .ok (Batch.ofOutcomes (outcomes tree targets s)) :=
  foldlM_analyzeNext h [] s

/-- A target whose path cannot be followed ends the batch. -/
theorem analyzeMany_of_unreachable {targets : List String} (htarget : target ∈ targets)
    (h : Unreachable tree target) (s : Session) :
    ∃ t, ((analyzeMany tree targets).run s).1 = .error (.trouble t) := by
  have hfrom : ∀ (given : List (String × Except Stop Record)) (s : Session),
      ∃ t, ((targets.foldlM (analyzeNext tree) (Batch.ofOutcomes given)).run s).1
        = .error (.trouble t) := by
    induction targets with
    | nil => cases htarget
    | cons first targets ih =>
      intro given s
      rw [List.foldlM_cons, run_bind_apply]
      by_cases hfirst : Unreachable tree first
      · obtain ⟨fault, hblocked⟩ := hfirst
        rw [analyzeNext_of_blocked _ hblocked]
        exact ⟨_, rfl⟩
      · rw [analyzeNext_ofOutcomes given hfirst]
        have hrest : target ∈ targets :=
          (List.mem_cons.mp htarget).resolve_left fun heq => hfirst (heq ▸ h)
        exact ih hrest _ _
  exact hfrom [] s

/-- A target whose path cannot be followed ends a batch of its own with the fault of the path. -/
theorem analyzeMany_singleton_of_blocked (h : tree.Blocked (Path.ofText target) fault)
    (s : Session) :
    (analyzeMany tree [target]).run s = (.error (.trouble (.badPath fault)), s) := by
  rw [analyzeMany, List.foldlM_cons, run_bind_apply, analyzeNext_of_blocked _ h]

section Names

variable {given : List (String × Except Stop Record)}

/-- The results are listed under the targets that gave records. -/
theorem mem_names_results {name : String} : name ∈ (Batch.ofOutcomes given).results.names ↔
    ∃ record, (name, .ok record) ∈ given := by
  simp only [Batch.ofOutcomes, Table.mem_names_ofList, List.mem_map, List.mem_filterMap,
    Option.map_eq_some_iff]
  constructor
  · rintro ⟨_, ⟨⟨n, outcome⟩, hx, record, hrecord, rfl⟩, rfl⟩
    cases outcome with
    | error stop => cases hrecord
    | ok r => exact ⟨r, hx⟩
  · rintro ⟨record, hx⟩
    exact ⟨_, ⟨_, hx, record, rfl, rfl⟩, rfl⟩

/-- A message is noted exactly for failures. -/
theorem failureMessage?_eq_some {outcome : Except Stop Record} {message : String} :
    failureMessage? outcome = some message ↔
      ∃ f, outcome = .error (.failed f) ∧ f.message = message := by
  unfold failureMessage?
  split
  · simp
  · next hother =>
    constructor
    · intro h
      cases h
    · rintro ⟨f, rfl, -⟩
      exact absurd rfl (hother f)

/-- The errors are listed under the targets that failed. -/
theorem mem_names_errors {name : String} : name ∈ (Batch.ofOutcomes given).errors.names ↔
    ∃ f, (name, .error (.failed f)) ∈ given := by
  simp only [Batch.ofOutcomes, Table.mem_names_ofList, List.mem_map, List.mem_filterMap,
    Option.map_eq_some_iff, failureMessage?_eq_some]
  constructor
  · rintro ⟨_, ⟨⟨n, outcome⟩, hx, message, ⟨f, rfl, -⟩, rfl⟩, rfl⟩
    exact ⟨f, hx⟩
  · rintro ⟨f, hx⟩
    exact ⟨_, ⟨_, hx, f.message, ⟨f, rfl, rfl⟩, rfl⟩, rfl⟩

/-- Where a name is given one value only, however often, the table has this value. -/
theorem get?_ofList_of_forall {α : Type} {pairs : List (String × α)} {name : String} {value : α}
    (hmem : (name, value) ∈ pairs) (honly : ∀ v, (name, v) ∈ pairs → v = value) :
    (Table.ofList pairs).get? name = some value := by
  have hname : name ∈ (Table.ofList pairs).names :=
    Table.mem_names_ofList.mpr (List.mem_map_of_mem hmem)
  obtain ⟨v, hv⟩ := Option.isSome_iff_exists.mp (Table.contains_iff.mpr hname)
  rw [hv, honly v (Table.mem_of_mem_entries_ofList (Pairs.mem_of_get? hv))]

/-- Whatever is listed twice was given the same twice. -/
def Agree (given : List (String × Except Stop Record)) : Prop :=
  ∀ x ∈ given, ∀ y ∈ given, x.1 = y.1 → x.2 = y.2

/-- If outcomes agree, the result of a target is the record that it gave. -/
theorem Agree.get?_results (h : Agree given) {name : String} {record : Record}
    (hmem : (name, .ok record) ∈ given) :
    (Batch.ofOutcomes given).results.get? name = some record := by
  refine get?_ofList_of_forall (List.mem_filterMap.mpr ⟨_, hmem, rfl⟩) fun other hother => ?_
  obtain ⟨y, hy, hpair⟩ := List.mem_filterMap.mp hother
  obtain ⟨r, hr, hpair⟩ := Option.map_eq_some_iff.mp hpair
  obtain ⟨rfl, rfl⟩ := Prod.mk.inj hpair
  rw [← h _ hmem y hy rfl] at hr
  exact (Option.some.inj hr).symm

/-- If outcomes agree, the error of a target is the message of its failure. -/
theorem Agree.get?_errors (h : Agree given) {name : String} {f : Failure}
    (hmem : (name, .error (.failed f)) ∈ given) :
    (Batch.ofOutcomes given).errors.get? name = some f.message := by
  refine get?_ofList_of_forall (List.mem_filterMap.mpr ⟨_, hmem, rfl⟩) fun other hother => ?_
  obtain ⟨y, hy, hpair⟩ := List.mem_filterMap.mp hother
  obtain ⟨message, hmessage, hpair⟩ := Option.map_eq_some_iff.mp hpair
  obtain ⟨rfl, rfl⟩ := Prod.mk.inj hpair
  rw [← h _ hmem y hy rfl] at hmessage
  exact (Option.some.inj hmessage).symm

end Names

/-! ### Targets that are listed twice -/

section Repeated

variable {b s₁ s₂ : Session} {Trees : Node → Prop}

/-- That a session is primed and has certain records is framed by its being primed. -/
theorem framed_records (s : Session) :
    Framed (Primed b Trees) (fun s' => Primed b Trees s' ∧ s'.records = s.records) where
  base hs := hs.1
  keep hs hs' hrecords := ⟨hs', hrecords.trans hs.2⟩

/-- A step that gives the same in all primed sessions, and leaves their records alone. -/
structure Apart (b : Session) (Trees : Node → Prop) {α : Type} (step : StepM α) : Prop where
  steady : Steady (Primed b Trees) step.run
  records_eq {s : Session} : Primed b Trees s → (step.run s).2.records = s.records

/-- The report on a file is the same in all primed sessions, and making it leaves the
records alone. -/
theorem apart_fileReport (htrees : Node.Consistent (Node.Among Trees)) {path : Path}
    (hroots : ∀ root ∈ b.sourceRoots tree path, Trees root) :
    Apart b Trees (fileReport tree path) where
  steady := steady_fileReport (framed_self _) htrees hroots
  records_eq {s} hs := ((steady_fileReport (framed_records s) htrees hroots).sound ⟨hs, rfl⟩).2

/-- The record of a class is the same in all primed sessions, and making it leaves what is
kept alone. -/
theorem apart_classDecl (htrees : Node.Consistent (Node.Among Trees)) {name : String}
    {file : Option Path} (hroots : ∀ root ∈ b.classRoots tree name file, Trees root) :
    Apart b Trees (classDecl tree name file) where
  steady := steady_classDecl (framed_self _) htrees hroots
  records_eq {s} hs := ((steady_classDecl (framed_records s) htrees hroots).sound ⟨hs, rfl⟩).2

section Keeping

variable {κ α : Type} [DecidableEq κ] {memo : Session → Memo κ α}
  {withMemo : Session → Memo κ α → Session} {key : κ} {failure : Library → Trouble → Failure}
  {step : StepM α} (hstep : Apart b Trees step)
  (hmemo : ∀ s s', s.records = s'.records → memo s = memo s')
  (hwith : ∀ s m, memo (withMemo s m) = m) (hb : Primed b Trees b) (hs : Primed b Trees s)
include hstep hmemo hwith hb hs

/-- Of the records that are kept, an analysis changes none, and adds one at most: where its key had
none, and where it succeeds. -/
theorem find?_keeping (other : κ) :
    (memo ((keeping memo withMemo key (orFail failure step)).run s).2).find? other
      = (memo s).find? other ∨
    (memo s).find? other = none ∧ key = other ∧ ∃ record, (step.run b).1 = .ok record := by
  cases hfind : (memo s).find? key with
  | some stored =>
    rw [keeping_of_find hfind]
    exact Or.inl rfl
  | none =>
    have hframe := hmemo _ _ (hstep.records_eq hs)
    have hsame := hstep.steady.eq hs hb
    rcases hrun : step.run s with ⟨t | record, s'⟩
    all_goals rw [hrun] at hframe hsame
    · rw [keeping_of_error hfind hrun, hframe]
      exact Or.inl rfl
    · rw [keeping_of_ok hfind hrun, hwith, Memo.find?_store, hframe]
      by_cases hkey : key = other
      · subst hkey
        exact Or.inr ⟨hfind, rfl, record, hsame.symm⟩
      · rw [if_neg hkey]
        exact Or.inl rfl

/-- Asked again, with more records but none that the analysis could not have given, an analysis
gives what it gave before. -/
theorem keeping_again (hs₂ : Primed b Trees s₂)
    (hgrows : (memo s₂).find? key
        = (memo ((keeping memo withMemo key (orFail failure step)).run s).2).find? key ∨
      (memo ((keeping memo withMemo key (orFail failure step)).run s).2).find? key = none ∧
        ∃ record, (step.run b).1 = .ok record) :
    ((keeping memo withMemo key (orFail failure step)).run s₂).1
      = ((keeping memo withMemo key (orFail failure step)).run s).1 := by
  cases hfind : (memo s).find? key with
  | some stored =>
    rw [keeping_of_find hfind] at hgrows ⊢
    rcases hgrows with hgrows | ⟨hnone, -⟩
    · rw [keeping_of_find (hgrows.trans hfind)]
    · rw [hfind] at hnone
      cases hnone
  | none =>
    have hframe := hmemo _ _ (hstep.records_eq hs)
    have hsame := hstep.steady.eq hs hb
    rcases hrun : step.run s with ⟨t | record, s'⟩
    all_goals rw [hrun] at hframe hsame
    · rw [keeping_of_error hfind hrun] at hgrows ⊢
      rcases hgrows with hgrows | ⟨-, record, hrecord⟩
      · -- nothing is kept for the key, and the analysis meets the same trouble
        have hfind₂ : (memo s₂).find? key = none := hgrows.trans (hframe ▸ hfind)
        have hagain := hstep.steady.eq hs₂ hb
        rcases hrun₂ : step.run s₂ with ⟨r, s₂'⟩
        rw [hrun₂, ← hsame] at hagain
        obtain rfl : r = .error t := hagain
        rw [keeping_of_error hfind₂ hrun₂, hs₂.library_eq, hs.library_eq]
      · rw [hrecord] at hsame
        cases hsame
    · rw [keeping_of_ok hfind hrun, hwith, Memo.find?_store, if_pos rfl] at hgrows
      rw [keeping_of_ok hfind hrun]
      rcases hgrows with hgrows | ⟨hnone, -⟩
      · rw [keeping_of_find hgrows]
        rfl
      · cases hnone

omit hmemo hwith hb hs hstep in
/-- What neither the step nor the memo touches stays as it is. -/
theorem keeping_frame {β : Type} (part : Session → β) (hpart : part (step.run s).2 = part s)
    (hother : ∀ s m, part (withMemo s m) = part s) :
    part ((keeping memo withMemo key (orFail failure step)).run s).2 = part s := by
  cases hfind : (memo s).find? key with
  | some stored => rw [keeping_of_find hfind]
  | none =>
    rcases hrun : step.run s with ⟨t | record, s'⟩
    all_goals rw [hrun] at hpart
    · rw [keeping_of_error hfind hrun, hpart]
    · rw [keeping_of_ok hfind hrun, hother, hpart]

end Keeping

/-- The one session keeps the records of the other, and more only of files and classes whose
analysis succeeds in a new session. -/
structure Grows (b : Session) (tree : FileTree) (s s' : Session) : Prop where
  files (key : Path) : s'.files.find? key = s.files.find? key ∨ s.files.find? key = none ∧
    ∃ path report, tree.resolve path = key ∧ ((fileReport tree path).run b).1 = .ok report
  classes (key : String) : s'.classes.find? key = s.classes.find? key ∨ s.classes.find? key = none ∧
    ∃ name decl, foldedName name = key ∧ ((classDecl tree name none).run b).1 = .ok decl

theorem Grows.refl (s : Session) : Grows b tree s s :=
  ⟨fun _ => Or.inl rfl, fun _ => Or.inl rfl⟩

/-- What is added in two steps is added. -/
theorem Grows.trans (h : Grows b tree s s₁) (h' : Grows b tree s₁ s₂) : Grows b tree s s₂ where
  files key := by
    rcases h.files key with heq | hnew
    · rw [← heq]
      exact h'.files key
    · exact Or.inr hnew
  classes key := by
    rcases h.classes key with heq | hnew
    · rw [← heq]
      exact h'.classes key
    · exact Or.inr hnew

/-- Sessions with the same records have the same files. -/
theorem files_eq_of_records_eq {s s' : Session} (h : s.records = s'.records) : s.files = s'.files :=
  congrArg Prod.fst h

theorem classes_eq_of_records_eq {s s' : Session} (h : s.records = s'.records) :
    s.classes = s'.classes :=
  congrArg (fun r => r.2.1) h

variable (htrees : Node.Consistent (Node.Among Trees)) (hb : Primed b Trees b)
  (hs : Primed b Trees s)
include htrees hb hs

/-- The analysis of a file adds its own report at most. -/
theorem grows_analyzeFile {path : Path} (hroots : ∀ root ∈ b.sourceRoots tree path, Trees root)
    (hfile : tree.isFile path = .ok true) :
    Grows b tree s ((analyzeFile tree path).run s).2 := by
  have hstep := apart_fileReport htrees hroots
  rw [analyzeFile_eq (FileTree.hasNull_of_isFile hfile)]
  refine ⟨fun key => ?_, fun key => Or.inl ?_⟩
  · refine Or.imp_right ?_ (find?_keeping hstep (fun _ _ => files_eq_of_records_eq)
      (fun _ _ => rfl) hb hs key)
    rintro ⟨hnone, hkey, report, hreport⟩
    exact ⟨hnone, path, report, hkey, hreport⟩
  · exact congrArg (Memo.find? · key) (keeping_frame classes
      (classes_eq_of_records_eq (hstep.records_eq hs)) fun _ _ => rfl)

/-- The analysis of a class adds its own record at most. -/
theorem grows_analyzeClass {name : String}
    (hroots : ∀ root ∈ b.classRoots tree name none, Trees root) :
    Grows b tree s ((analyzeClass tree name none).run s).2 := by
  have hstep := apart_classDecl htrees hroots
  rw [analyzeClass]
  refine ⟨fun key => Or.inl ?_, fun key => ?_⟩
  · exact congrArg (Memo.find? · key) (keeping_frame files
      (files_eq_of_records_eq (hstep.records_eq hs)) fun _ _ => rfl)
  · refine Or.imp_right ?_ (find?_keeping hstep (fun _ _ => classes_eq_of_records_eq)
      (fun _ _ => rfl) hb hs key)
    rintro ⟨hnone, hkey, decl, hdecl⟩
    exact ⟨hnone, name, decl, hkey, hdecl⟩

/-- An analysis drops no record, and adds only what succeeds in a new session, too. -/
theorem grows_analyze (hroots : ∀ root ∈ b.targetRoots tree target, Trees root) :
    Grows b tree s (analyze tree target s).2 := by
  show Grows b tree s ((analyze tree target).run s).2
  unfold targetRoots at hroots
  by_cases hreach : Unreachable tree target
  · obtain ⟨fault, hblocked⟩ := hreach
    rw [analyze_run_of_blocked hblocked]
    exact .refl s
  rcases isFile_of_not_unreachable hreach with hfile | hfile
  all_goals rw [hfile] at hroots
  · rw [analyze_run_of_file hfile]
    exact grows_analyzeFile htrees hb hs hroots hfile
  · cases hloaded : s.host.isLoaded target with
    | true =>
      rw [analyze_run_of_loaded hfile hloaded]
      exact grows_analyzeClass htrees hb hs hroots
    | false =>
      rw [analyze_run_of_missing hfile hloaded]
      exact .refl s

/-- A file gives the same again later in the batch, whether it succeeded or failed. -/
theorem analyzeFile_again {path : Path} (hroots : ∀ root ∈ b.sourceRoots tree path, Trees root)
    (hfile : tree.isFile path = .ok true) (hs₂ : Primed b Trees s₂)
    (h : Grows b tree ((analyzeFile tree path).run s).2 s₂) :
    ((analyzeFile tree path).run s₂).1 = ((analyzeFile tree path).run s).1 := by
  rw [analyzeFile_eq (FileTree.hasNull_of_isFile hfile)] at h ⊢
  refine keeping_again (apart_fileReport htrees hroots) (fun _ _ => files_eq_of_records_eq)
    (fun _ _ => rfl) hb hs hs₂ ?_
  rcases h.files (tree.resolve path) with heq | ⟨hnone, other, report, hkey, hreport⟩
  · exact Or.inl heq
  · -- another path to the file could have added a report only where this one gives one, too
    exact Or.inr ⟨hnone, _, exists_fileReport_of_resolve_eq hfile hkey hreport⟩

/-- So does a class. -/
theorem analyzeClass_again {name : String}
    (hroots : ∀ root ∈ b.classRoots tree name none, Trees root) (hs₂ : Primed b Trees s₂)
    (h : Grows b tree ((analyzeClass tree name none).run s).2 s₂) :
    ((analyzeClass tree name none).run s₂).1 = ((analyzeClass tree name none).run s).1 := by
  refine keeping_again (apart_classDecl htrees hroots) (fun _ _ => classes_eq_of_records_eq)
    (fun _ _ => rfl) hb hs hs₂ ?_
  rcases h.classes (foldedName name) with heq | ⟨hnone, other, decl, hkey, hdecl⟩
  · exact Or.inl heq
  · exact Or.inr ⟨hnone, decl, classDecl_of_foldedName_eq hkey hdecl⟩

/-- A target gives the same again after other targets were analysed. -/
theorem analyze_again (hroots : ∀ root ∈ b.targetRoots tree target, Trees root)
    (hs₂ : Primed b Trees s₂) (h : Grows b tree (analyze tree target s).2 s₂) :
    (analyze tree target s₂).1 = (analyze tree target s).1 := by
  show ((analyze tree target).run s₂).1 = ((analyze tree target).run s).1
  change Grows b tree ((analyze tree target).run s).2 s₂ at h
  unfold targetRoots at hroots
  by_cases hreach : Unreachable tree target
  · obtain ⟨fault, hblocked⟩ := hreach
    rw [analyze_run_of_blocked hblocked, analyze_run_of_blocked hblocked]
  rcases isFile_of_not_unreachable hreach with hfile | hfile
  all_goals rw [hfile] at hroots
  · rw [analyze_run_of_file hfile] at h ⊢
    rw [analyze_run_of_file hfile, analyzeFile_again htrees hb hs hroots hfile hs₂ h]
  · have hsame : s₂.host.isLoaded target = s.host.isLoaded target := by
      rw [hs₂.host.isLoaded_eq, hs.host.isLoaded_eq]
    cases hloaded : s.host.isLoaded target with
    | true =>
      rw [analyze_run_of_loaded hfile hloaded] at h ⊢
      rw [analyze_run_of_loaded hfile (hsame.trans hloaded),
        analyzeClass_again htrees hb hs hroots hs₂ h]
    | false =>
      rw [analyze_run_of_missing hfile hloaded, analyze_run_of_missing hfile (hsame.trans hloaded)]

/-- What a target gave, it gives at every later turn. -/
theorem outcomes_again (hroot : ∀ root ∈ b.targetRoots tree target, Trees root)
    (hs₁ : Primed b Trees s₁) {targets : List String}
    (hroots : ∀ later ∈ targets, ∀ root ∈ b.targetRoots tree later, Trees root)
    (h : Grows b tree (analyze tree target s).2 s₁) {x : String × Except Stop Record}
    (hx : x ∈ outcomes tree targets s₁) (hname : x.1 = target) :
    x.2 = (analyze tree target s).1 := by
  induction targets generalizing s₁ with
  | nil => cases hx
  | cons first targets ih =>
    have hfirst := hroots first List.mem_cons_self
    rcases List.mem_cons.mp hx with rfl | hx
    · obtain rfl : first = target := hname
      exact analyze_again htrees hb hs hroot hs₁ h
    · exact ih (((invariant_primed htrees).analyze hfirst s₁ hs₁).2)
        (fun later hlater => hroots later (List.mem_cons_of_mem first hlater))
        (h.trans (grows_analyze htrees hb hs₁ hfirst)) hx

/-- Where trees agree, a target that is listed twice has the same outcome twice. -/
theorem outcomes_agree {targets : List String}
    (hroots : ∀ target ∈ targets, ∀ root ∈ b.targetRoots tree target, Trees root) :
    Agree (outcomes tree targets s) := by
  induction targets generalizing s with
  | nil =>
    intro x hx
    cases hx
  | cons target targets ih =>
    have hfirst := hroots target List.mem_cons_self
    have hrest : ∀ later ∈ targets, ∀ root ∈ b.targetRoots tree later, Trees root :=
      fun later hlater => hroots later (List.mem_cons_of_mem target hlater)
    have hnext : Primed b Trees (analyze tree target s).2 :=
      ((invariant_primed htrees).analyze hfirst s hs).2
    have hlater : ∀ y ∈ outcomes tree targets (analyze tree target s).2, y.1 = target →
        y.2 = (analyze tree target s).1 := fun y hy hname =>
      outcomes_again htrees hb hs hfirst hnext hrest (.refl _) hy hname
    intro x hx y hy hname
    rcases List.mem_cons.mp hx with rfl | hx
    · rcases List.mem_cons.mp hy with rfl | hy
      · rfl
      · exact (hlater y hy hname.symm).symm
    · rcases List.mem_cons.mp hy with rfl | hy
      · exact hlater x hx hname
      · exact ih hnext hrest x hx y hy hname

end Repeated

/-- Targets that are listed once cannot disagree. -/
theorem agree_of_nodup {given : List (String × Except Stop Record)}
    (h : (given.map Prod.fst).Nodup) : Agree given := by
  intro x hx y hy hname
  rw [List.inj_on_of_nodup_map h hx hy hname]

/-- Whatever was done before, only a path that cannot be followed stops the analysis of a target
otherwise than by a failure. A batch without such targets comes to its end, and no other does. It
has every target exactly once, as a result or as an error, with what the target gave. -/
theorem analyzeMany_complete (u : Setup) (history : List (FileTree × Act)) (tree : FileTree)
    (targets : List String)
    (hrepeated : targets.Nodup ∨ Node.Consistent
      (Node.Among (ReadIn u.session (history ++ [(tree, .call (.many targets))])))) :
    (∀ target t, (analyze tree target (after history u.session)).1 = .error (.trouble t) ↔
      ∃ fault, tree.Blocked (Path.ofText target) fault ∧ t = .badPath fault) ∧
    ((∃ batch, (analyzeMany tree targets (after history u.session)).1 = .ok batch) ↔
      ∀ target ∈ targets, ¬Unreachable tree target) ∧
    ∀ batch, (analyzeMany tree targets (after history u.session)).1 = .ok batch →
      (∀ name, name ∈ batch.results.names ∨ name ∈ batch.errors.names ↔ name ∈ targets) ∧
      (∀ name ∈ batch.results.names, name ∉ batch.errors.names) ∧
      ∀ x ∈ outcomes tree targets (after history u.session),
        (∀ record, x.2 = .ok record → batch.results.get? x.1 = some record) ∧
        ∀ f, x.2 = .error (.failed f) → batch.errors.get? x.1 = some f.message := by
  have hagree : Agree (outcomes tree targets (after history u.session)) := by
    rcases hrepeated with hnodup | htrees
    · exact agree_of_nodup (by rwa [map_fst_outcomes])
    · refine outcomes_agree htrees primed_session ((invariant_primed htrees).after
        (fun x hx root hroot => ?_) primed_session) fun target htarget root hroot => ?_
      · exact ⟨x, List.mem_append_left _ hx, hroot⟩
      · exact ⟨_, List.mem_append_right _ List.mem_cons_self,
          List.mem_flatMap.mpr ⟨target, htarget, hroot⟩⟩
  have hends : ∀ batch, (analyzeMany tree targets (after history u.session)).1 = .ok batch →
      ∀ target ∈ targets, ¬Unreachable tree target := by
    intro batch hbatch target htarget hreach
    obtain ⟨t, ht⟩ := analyzeMany_of_unreachable htarget hreach (after history u.session)
    rw [show (analyzeMany tree targets (after history u.session)).1 = _ from ht] at hbatch
    cases hbatch
  refine ⟨fun target t => analyze_eq_trouble_iff, ?_, fun batch hbatch => ?_⟩
  · constructor
    · rintro ⟨batch, hbatch⟩
      exact hends batch hbatch
    · exact fun h => ⟨_, analyzeMany_eq h (after history u.session)⟩
  have hreach := hends batch hbatch
  obtain rfl : Batch.ofOutcomes (outcomes tree targets (after history u.session)) = batch :=
    Except.ok.inj ((analyzeMany_eq hreach (after history u.session)).symm.trans hbatch)
  refine ⟨fun name => ?_, fun name hresult herror => ?_, fun x hx => ⟨?_, ?_⟩⟩
  · rw [mem_names_results, mem_names_errors]
    have hname : name ∈ targets ↔
        ∃ x ∈ outcomes tree targets (after history u.session), x.1 = name := by
      rw [← List.mem_map, map_fst_outcomes]
    rw [hname]
    constructor
    · rintro (⟨record, hmem⟩ | ⟨f, hmem⟩)
      · exact ⟨_, hmem, rfl⟩
      · exact ⟨_, hmem, rfl⟩
    · rintro ⟨⟨_, outcome⟩, hmem, rfl⟩
      cases outcome with
      | ok record => exact Or.inl ⟨record, hmem⟩
      | error stop =>
        cases stop with
        | failed f => exact Or.inr ⟨f, hmem⟩
        | trouble t => exact absurd rfl (ne_trouble_of_mem_outcomes hreach hmem t)
  · obtain ⟨record, hrecord⟩ := mem_names_results.mp hresult
    obtain ⟨f, hf⟩ := mem_names_errors.mp herror
    cases hagree _ hrecord _ hf rfl
  · rintro record hrecord
    obtain ⟨name, outcome⟩ := x
    obtain rfl : outcome = .ok record := hrecord
    exact hagree.get?_results hx
  · rintro f hf
    obtain ⟨name, outcome⟩ := x
    obtain rfl : outcome = .error (.failed f) := hf
    exact hagree.get?_errors hx

/-! ### Batches with targets that are listed twice, and batches that fail -/

/-- A file under two names, a class and a file that is missing, listed again and again. -/
def repeatedTargets : List String := ["a.php", "b.php", "./a.php", "A", "b.php", "\\a", "a.php"]

/-- What was done before: the file was empty first, and the session was not cleared since. -/
def repeatedHistory : List (FileTree × Act) :=
  [(sampleTree [], .call (.cls "A")), (sampleTree sampleFile, .call (.node literalNode)),
    (sampleTree sampleFile, .directory ".")]

/-- All trees that the sample batch reads are among those of its file. -/
theorem repeated_roots :
    ∀ x ∈ repeatedHistory ++ [(sampleTree sampleFile, Act.call (.many repeatedTargets))],
      ∀ root ∈ x.2.roots sampleSetup.session x.1, root ∈ sampleRoots := by
  decide +kernel

/-- A batch of targets that are listed again and again, after the file was empty at first. -/
theorem analyzeMany_complete_repeated :
    ¬repeatedTargets.Nodup ∧
    Node.Consistent (Node.Among (ReadIn sampleSetup.session
      (repeatedHistory ++ [(sampleTree sampleFile, .call (.many repeatedTargets))]))) ∧
    ∃ batch, (analyzeMany (sampleTree sampleFile) repeatedTargets
        (after repeatedHistory sampleSetup.session)).1 = .ok batch ∧
      (∀ name, name ∈ batch.results.names ∨ name ∈ batch.errors.names ↔
        name ∈ repeatedTargets) ∧
      ∀ name ∈ batch.results.names, name ∉ batch.errors.names := by
  have htrees : Node.Consistent (Node.Among (ReadIn sampleSetup.session
      (repeatedHistory ++ [(sampleTree sampleFile, .call (.many repeatedTargets))]))) :=
    sample_consistent.mono fun root ⟨x, hx, hroot⟩ => repeated_roots x hx root hroot
  have hfiles : ∀ target ∈ repeatedTargets,
      ((sampleTree sampleFile).isFile (Path.ofText target)).toOption.isSome = true := by
    decide +kernel
  have hreach : ∀ target ∈ repeatedTargets, ¬Unreachable (sampleTree sampleFile) target := by
    rintro target htarget ⟨fault, hblocked⟩
    have hfile := hfiles target htarget
    rw [FileTree.isFile_eq_error_iff.mpr hblocked] at hfile
    cases hfile
  obtain ⟨-, hends, hnotes⟩ := analyzeMany_complete sampleSetup repeatedHistory
    (sampleTree sampleFile) repeatedTargets (.inr htrees)
  obtain ⟨batch, hbatch⟩ := hends.mpr hreach
  obtain ⟨hnames, hapart, -⟩ := hnotes batch hbatch
  exact ⟨by decide, htrees, batch, hbatch, hnames, hapart⟩

/-- A file with a class whose constant is a new object, created of what is given. -/
def creationFile (name : String) (created : Sketch) : List Sketch :=
  Sketch.file [.cls name [.blank " ", .constant "X" (.rule "object_creation_expression" ""
    [.token "new", .blank " ", created]), .blank " "]]

/-- The first file, in which a backslash is the name of the class of the object. -/
def slashFile : List Sketch := creationFile "A" (.leaf "qualified_name" "\\")

/-- The second file, in which the same text has no name. -/
def skippedFile : List Sketch := creationFile "B" (.blank "\\")

/-- A parser whose trees disagree about the parts of one text. -/
def creationSetup : Setup where
  parser := Sketch.parser [slashFile, skippedFile]

/-- The two files. -/
def creationTree : FileTree :=
  .ofFiles [(⟨"", ["a.php"]⟩, Utf8.encode (Sketch.source slashFile)),
    (⟨"", ["b.php"]⟩, Utf8.encode (Sketch.source skippedFile))]

/-- A name that repeats one letter. -/
def letters (n : Nat) : String := String.ofList (List.replicate n 'a')

/-- A file in a directory that may not be searched. -/
def closedTree : FileTree :=
  (FileTree.ofFiles [(⟨"", ["d", "a.php"]⟩, [])]).put ["tmp", "work", "d"] (.directory true false)

section Letters

variable {n : Nat} (h : 255 < n)
include h

/-- A long name of letters is neither a dot nor two dots and has no slash. -/
theorem isPlain_letters : Path.IsPlain (letters n) := by
  have hletters : (letters n).toList = List.replicate n 'a' := String.toList_ofList
  have hlength : ∀ other : String, other.toList.length ≤ 255 → letters n ≠ other := by
    intro other hother heq
    rw [← heq, hletters, List.length_replicate] at hother
    omega
  refine ⟨hlength "" (by decide), hlength "." (by decide), fun c hc => ?_⟩
  rw [hletters] at hc
  rw [List.eq_of_mem_replicate hc]
  decide

/-- It is longer than a component may be. -/
theorem isLongName_letters : FileTree.isLongName (letters n) = true := by
  have hbytes := Utf8.length_le_length_encode (letters n)
  rw [letters, String.toList_ofList, List.length_replicate] at hbytes
  exact decide_eq_true (Nat.lt_of_lt_of_le h hbytes)

/-- The name blocks every path that leads to it through open directories. -/
theorem blocked_letters {root : String} {before : List String} (hroot : root = "" ∨ root = "/")
    (hnull : (⟨root, before⟩ : Path).hasNull = false)
    (hbefore : ∀ part ∈ before, Path.IsPlain part ∧ FileTree.isLongName part = false)
    (hopen : ∀ first later, before = first ++ later →
      tree.IsOpen (Path.settle (tree.start ⟨root, before ++ [letters n]⟩) first)) :
    tree.Blocked (Path.ofText (⟨root, before ++ [letters n]⟩ : Path).text)
      (.nameTooLong (⟨root, before ++ [letters n]⟩ : Path).text) := by
  have hplain : ∀ part ∈ before ++ [letters n], Path.IsPlain part := by
    intro part hpart
    rcases List.mem_append.mp hpart with hpart | hpart
    · exact (hbefore part hpart).1
    · rw [List.mem_singleton.mp hpart]
      exact isPlain_letters h
  have hnull' : (⟨root, before ++ [letters n]⟩ : Path).hasNull = false := by
    simp only [Path.hasNull, List.any_append, Bool.or_eq_false_iff] at hnull ⊢
    exact ⟨hnull, by simp [letters]⟩
  have hsteps : (⟨root, before ++ [letters n]⟩ : Path).steps = before ++ letters n :: [] := by
    simp [Path.steps]
  rw [Path.ofText_text hroot hplain]
  exact FileTree.blocked_of_long hnull' hsteps hopen (fun part hpart => (hbefore part hpart).2)
    (isLongName_letters h)

end Letters

/-- A name of 256 letters ends the batch, in the working directory as well as below another
directory, and so does a file in a directory that may not be searched. Where trees
disagree, a target that is listed twice can fail first and succeed later, with a type that
was kept in between. -/
theorem batch_ended_or_doubled :
    (∀ target ∈ [letters 256, "/tmp/" ++ letters 256],
      (analyzeMany (.empty ["tmp", "work"]) [target] sampleSetup.session).1
        = .error (.trouble (.badPath (.nameTooLong target)))) ∧
    (analyzeMany closedTree ["d/a.php"] sampleSetup.session).1
      = .error (.trouble (.badPath (.permissionDenied "d/a.php"))) ∧
    ((analyzeMany creationTree ["a.php", "b.php", "a.php"] creationSetup.session).1.toOption.map
      fun batch => (batch.results.names, batch.errors.names))
        = some (["b.php", "a.php"], ["a.php"]) := by
  have hhere : (FileTree.empty ["tmp", "work"]).Blocked
      (Path.ofText (⟨"", [] ++ [letters 256]⟩ : Path).text)
      (.nameTooLong (⟨"", [] ++ [letters 256]⟩ : Path).text) := by
    refine blocked_letters (by decide) (Or.inl rfl) rfl (by simp) fun first later hfirst => ?_
    obtain ⟨rfl, rfl⟩ := List.append_eq_nil_iff.mp hfirst.symm
    exact ⟨true, rfl⟩
  have hbelow : (FileTree.empty ["tmp", "work"]).Blocked
      (Path.ofText (⟨"/", ["tmp"] ++ [letters 256]⟩ : Path).text)
      (.nameTooLong (⟨"/", ["tmp"] ++ [letters 256]⟩ : Path).text) := by
    refine blocked_letters (by decide) (Or.inr rfl) rfl (fun part hpart => ?_)
      fun first later hfirst => ?_
    · rw [List.mem_singleton.mp hpart]
      exact ⟨⟨by decide, by decide, by simp⟩, by decide +kernel⟩
    · rcases List.singleton_eq_append_iff.mp hfirst with ⟨rfl, -⟩ | ⟨rfl, -⟩
      · exact ⟨true, rfl⟩
      · exact ⟨true, rfl⟩
  refine ⟨fun target htarget => ?_, ?_, by decide +kernel⟩
  · have htext : ∀ name : String, (⟨"", [] ++ [name]⟩ : Path).text = name ∧
        (⟨"/", ["tmp"] ++ [name]⟩ : Path).text = "/tmp/" ++ name := by
      intro name
      simp [Path.text, Text.joined, ← String.toList_inj]
    rw [(htext _).1] at hhere
    rw [(htext _).2] at hbelow
    rcases List.mem_pair.mp htarget with rfl | rfl
    · exact congrArg Prod.fst (analyzeMany_singleton_of_blocked hhere sampleSetup.session)
    · exact congrArg Prod.fst (analyzeMany_singleton_of_blocked hbelow sampleSetup.session)
  · have hblocked : closedTree.Blocked (Path.ofText "d/a.php") (.permissionDenied "d/a.php") :=
      FileTree.isFile_eq_error_iff.mp (by decide +kernel)
    exact congrArg Prod.fst (analyzeMany_singleton_of_blocked hblocked sampleSetup.session)

end Session

end TypeFacts
