import TypeFacts.Proofs.Analysis.Transparency
import TypeFacts.Proofs.Files.Reach

/-!
# Declarations from source files

What a new session does with a class whose source file declares it. Reading the source looks at
nothing of the host (`Session.readSource_withHost`) and leaves the doc comments alone
(`Session.sourceOnly_readSource`), so the declaration is what is built from the outline of the
file, with what is loaded of the class (`Session.classDecl_of_source`). In a new session nothing is
kept, and an analysis gives what it gives without regard to what is kept
(`Session.fileReport_of_analyzeFile`, `Session.analyzeClass_eq_ok`).
-/

namespace TypeFacts

/-! ### Declarations by name -/

section Named

variable {α β ε : Type} {name : α → String}

/-- The last of a list with its name. -/
def LastNamed (name : α → String) (xs : List α) (x : α) : Prop :=
  ∃ before after, xs = before ++ x :: after ∧ ∀ y ∈ after, name y ≠ name x

theorem LastNamed.mem {xs : List α} {x : α} (h : LastNamed name xs x) : x ∈ xs := by
  obtain ⟨before, after, rfl, -⟩ := h
  exact List.mem_append_right _ List.mem_cons_self

/-- What is made of a list is listed under the names of its members, in order. -/
theorem names_of_mapM {f : α → Except ε β} {xs : List α} {pairs : List (String × β)}
    (h : xs.mapM (fun a => do return (name a, ← f a)) = .ok pairs) :
    xs.map name = pairs.map Prod.fst := by
  rw [← List.forall₂_eq_eq_eq, List.forall₂_map_left_iff, List.forall₂_map_right_iff]
  refine (forall₂_of_mapM h).imp fun a e he => ?_
  obtain ⟨y, -, he⟩ := bind_eq_ok.mp he
  rw [← Except.ok.inj he]

theorem mem_names_of_mapM {f : α → Except ε β} {xs : List α} {pairs : List (String × β)}
    (h : xs.mapM (fun a => do return (name a, ← f a)) = .ok pairs) (n : String) :
    n ∈ (Table.ofList pairs).names ↔ n ∈ xs.map name := by
  rw [Table.mem_names_ofList, names_of_mapM h]

/-- Of several things made under one name, the table has the last. -/
theorem get?_of_lastNamed {f : α → Except ε β} {xs : List α} {x : α} {pairs : List (String × β)}
    (h : xs.mapM (fun a => do return (name a, ← f a)) = .ok pairs) (hx : LastNamed name xs x) :
    ∃ y, f x = .ok y ∧ (Table.ofList pairs).get? (name x) = some y := by
  obtain ⟨before, after, rfl, hafter⟩ := hx
  rw [List.mapM_append] at h
  obtain ⟨first, -, h⟩ := bind_eq_ok.mp h
  obtain ⟨rest, hrest, h⟩ := bind_eq_ok.mp h
  obtain rfl := Except.ok.inj h
  rw [List.mapM_cons] at hrest
  obtain ⟨e, he, hrest⟩ := bind_eq_ok.mp hrest
  obtain ⟨last, hlast, hrest⟩ := bind_eq_ok.mp hrest
  obtain ⟨y, hy, he⟩ := bind_eq_ok.mp he
  obtain rfl := Except.ok.inj he
  obtain rfl := Except.ok.inj hrest
  refine ⟨y, hy, Table.get?_ofList_eq_some.mpr ⟨first, last, rfl, fun hmem => ?_⟩⟩
  rw [← names_of_mapM hlast] at hmem
  obtain ⟨a, ha, hname⟩ := List.mem_map.mp hmem
  exact hafter a ha hname

/-- Of the declarations of a name there is a last one. -/
theorem exists_lastNamed {xs : List α} {n : String} (h : n ∈ xs.map name) :
    ∃ x, LastNamed name xs x ∧ name x = n := by
  induction xs with
  | nil => cases h
  | cons a xs ih =>
    by_cases hlater : n ∈ xs.map name
    · obtain ⟨x, ⟨before, after, rfl, hafter⟩, hx⟩ := ih hlater
      exact ⟨x, ⟨a :: before, after, rfl, hafter⟩, hx⟩
    · obtain rfl : n = name a := (List.mem_cons.mp h).resolve_right hlater
      refine ⟨a, ⟨[], xs, rfl, fun y hy heq => hlater ?_⟩, rfl⟩
      exact List.mem_map.mpr ⟨y, hy, heq⟩

/-- What a table has under a name was made of the last thing with this name. -/
theorem exists_lastNamed_of_get? {f : α → Except ε β} {xs : List α} {pairs : List (String × β)}
    (h : xs.mapM (fun a => do return (name a, ← f a)) = .ok pairs) {n : String} {y : β}
    (hy : (Table.ofList pairs).get? n = some y) :
    ∃ x, LastNamed name xs x ∧ name x = n ∧ f x = .ok y := by
  have hmem : n ∈ (Table.ofList pairs).names :=
    Table.contains_iff.mp (Option.isSome_iff_exists.mpr ⟨y, hy⟩)
  obtain ⟨x, hlast, rfl⟩ := exists_lastNamed ((mem_names_of_mapM h n).mp hmem)
  obtain ⟨y', hx, hget⟩ := get?_of_lastNamed h hlast
  obtain rfl := Option.some.inj (hget.symm.trans hy)
  exact ⟨x, hlast, rfl, hx⟩

/-- Building one after the other, each under a name, by what each one gives. -/
theorem Analysis.gives_mapM_named {readers : Table Doc.TagReader} {f : α → Analysis.DocM β}
    {w : α → Except Ty.Fault β} (name : α → String)
    (h : ∀ a, Gives (Doc.Reader.Sound readers) (f a).run (w a)) (xs : List α) :
    Gives (Doc.Reader.Sound readers)
      (xs.mapM fun a => do return (name a, ← f a) : Analysis.DocM _).run
      (xs.mapM fun a => do return (name a, ← w a)) :=
  Gives.mapM fun a _ => (h a).bind fun _ _ => gives_pure _

end Named

namespace Session

variable {tree : FileTree} {path : Path} {s : Session}

/-! ### Reading a source -/

/-- A step that does not look at the host, and leaves it, the doc comments and the
settings alone. -/
def SourceOnly {α : Type} (x : StepM α) : Prop :=
  ∀ s, (x.run s).2.docs = s.docs ∧ (x.run s).2.settings = s.settings ∧
    ∀ h : Host, x.run { s with host := h } = ((x.run s).1, { (x.run s).2 with host := h })

theorem sourceOnly_pure {α : Type} (a : α) : SourceOnly (pure a) :=
  fun _ => ⟨rfl, rfl, fun _ => rfl⟩

/-- Steps that look at the source only may be joined. -/
theorem SourceOnly.bind {α β : Type} {x : StepM α} {f : α → StepM β} (hx : SourceOnly x)
    (hf : ∀ a, SourceOnly (f a)) : SourceOnly (x >>= f) := by
  intro s
  obtain ⟨hdocs, hsettings, hhost⟩ := hx s
  rcases hrun : x.run s with ⟨e | a, s'⟩
  all_goals rw [hrun] at hdocs hsettings hhost
  · have hfail : (x >>= f).run s = (.error e, s') := by rw [run_bind_apply, hrun]
    rw [hfail]
    refine ⟨hdocs, hsettings, fun h => ?_⟩
    rw [run_bind_apply, hhost h]
  · have hnext : (x >>= f).run s = (f a).run s' := by rw [run_bind_apply, hrun]
    obtain ⟨hdocs', hsettings', hhost'⟩ := hf a s'
    rw [hnext]
    refine ⟨hdocs'.trans hdocs, hsettings'.trans hsettings, fun h => ?_⟩
    rw [run_bind_apply, hhost h]
    exact hhost' h

/-- A step that looks at the session, but not at its host. -/
theorem SourceOnly.get_bind {α : Type} {f : Session → StepM α} (hf : ∀ s, SourceOnly (f s))
    (hhost : ∀ (s : Session) (h : Host), f { s with host := h } = f s) :
    SourceOnly (get >>= f) := by
  intro s
  rw [run_get_bind]
  refine ⟨(hf s s).1, (hf s s).2.1, fun h => ?_⟩
  rw [run_get_bind, hhost]
  exact (hf s s).2.2 h

theorem sourceOnly_orTrouble {ε α : Type} (trouble : ε → Trouble) (x : Except ε α) :
    SourceOnly (orTrouble trouble x) := by
  cases x <;> exact fun _ => ⟨rfl, rfl, fun _ => rfl⟩

theorem sourceOnly_outline (root : Node) : SourceOnly (outline root) := by
  have heq : outline root = fun s : Session =>
      ((Outline.readTree s.functionTypes root s.types).1.mapError .badType,
        { s with types := (Outline.readTree s.functionTypes root s.types).2 }) := by
    funext s
    unfold outline
    rcases Outline.readTree s.functionTypes root s.types with ⟨_ | _, _⟩ <;> rfl
  rw [heq]
  exact fun _ => ⟨rfl, rfl, fun _ => rfl⟩

/-- To read a source the host is not asked. -/
theorem sourceOnly_readSource (tree : FileTree) (path : Path) :
    SourceOnly (readSource tree path) := by
  refine (sourceOnly_orTrouble _ _).bind fun found => ?_
  cases found with
  | none => exact fun _ => ⟨rfl, rfl, fun _ => rfl⟩
  | some bytes =>
    refine SourceOnly.get_bind (fun s => (sourceOnly_orTrouble _ _).bind fun source => ?_)
      fun _ _ => rfl
    refine SourceOnly.bind (fun _ => ⟨rfl, rfl, fun _ => rfl⟩) fun r => ?_
    exact (sourceOnly_outline r.1).bind fun _ => sourceOnly_pure _

theorem readSource_withHost (tree : FileTree) (path : Path) (s : Session) (h : Host) :
    ((readSource tree path).run { s with host := h }).1 = ((readSource tree path).run s).1 := by
  rw [(sourceOnly_readSource tree path s).2.2 h]

/-- A source that is read is a file whose bytes may be read. -/
theorem file?_of_readSource {r : FileOutline × List SourceFault}
    (h : ((readSource tree path).run s).1 = .ok r) :
    ∃ bytes, tree.file? path = .ok (some bytes) := by
  rw [readSource, run_bind_apply] at h
  rcases hfile : tree.file? path with e | _ | bytes
  all_goals rw [hfile] at h
  · cases h
  · cases h
  · exact ⟨bytes, rfl⟩

/-- A source that was read is a file. -/
theorem isFile_of_readSource {r : FileOutline × List SourceFault}
    (h : ((readSource tree path).run s).1 = .ok r) : tree.isFile path = .ok true := by
  obtain ⟨bytes, hfile⟩ := file?_of_readSource h
  exact FileTree.isFile_of_file? hfile

/-! ### A class that a source declares -/

theorem run_bind_ok {α β : Type} {x : StepM α} {f : α → StepM β} {a : α} {s' : Session}
    (h : x.run s = (.ok a, s')) : (x >>= f).run s = (f a).run s' := by
  rw [run_bind_apply, h]

/-- Building looks only at the doc comments that are kept. -/
theorem build_run {α : Type} (x : Analysis.DocM α) (s : Session) :
    ((build x).run s).1 = (x.run s.docs).1.mapError .badType := by
  show (build x s).1 = (x s.docs).1.mapError .badType
  unfold build
  rcases x s.docs with ⟨_ | _, _⟩ <;> rfl

variable {name : String} {file : Option Path} {reflected : Option ClassDecl} {s' : Session}
  {outline : FileOutline} {faults : List SourceFault} {cls : ClassOutline}

/-- A class that its source declares is built with what reflection says of it. -/
theorem sourceClass_run (hread : ((readSource tree path).run s).1 = .ok (outline, faults))
    (hcls : outline.findClass? name = some cls) (reflected : Option ClassDecl) :
    ((sourceClass tree path name reflected).run s).1 =
      (((Analysis.buildClass s.settings.keepReflected path.text reflected cls).run
        s.docs).1.mapError
        Trouble.badType).map some := by
  obtain ⟨hdocs, hsettings, -⟩ := sourceOnly_readSource tree path s
  have hfile := isFile_of_readSource hread
  rcases hrun : (readSource tree path).run s with ⟨r, s'⟩
  rw [hrun] at hread hdocs hsettings
  obtain rfl : r = .ok (outline, faults) := hread
  have hisFile : (orTrouble .badPath (tree.isFile path) : StepM Bool).run s = (.ok true, s) := by
    rw [hfile]
    rfl
  rw [sourceClass, run_bind_ok hisFile, if_pos rfl, run_bind_ok hrun]
  simp only [hcls]
  rw [run_get_bind, run_bind_apply, hsettings, ← hdocs,
    ← build_run (Analysis.buildClass s.settings.keepReflected path.text reflected cls) s']
  rcases (build (Analysis.buildClass s.settings.keepReflected path.text reflected cls)).run s'
    with ⟨_ | _, _⟩ <;> rfl

/-- Looking for what is loaded of a class changes nothing but the host. -/
theorem loadedClass_state (name : String) (s : Session) :
    ∃ host, ((loadedClass name).run s).2 = { s with host := host } := by
  cases hloaded : s.host.isLoaded name with
  | false =>
    rw [loadedClass_run_of_not_loaded hloaded]
    exact ⟨s.host, rfl⟩
  | true =>
    rw [loadedClass, run_get_bind, if_pos hloaded, run_map_apply, hostClass_eq]
    exact ⟨(s.host.entity name).2, rfl⟩

/-- The declaration of a class that its source file declares. -/
theorem classDecl_of_source (hloaded : (loadedClass name).run s = (.ok reflected, s'))
    (hsource : s'.classSource name file reflected = some path)
    (hread : ((readSource tree path).run s').1 = .ok (outline, faults))
    (hcls : outline.findClass? name = some cls) :
    ((classDecl tree name file).run s).1 =
      ((Analysis.buildClass s'.settings.keepReflected path.text reflected cls).run
        s'.docs).1.mapError
        .badType := by
  have hclass := sourceClass_run hread hcls reflected
  rw [classDecl, run_bind_ok hloaded, run_bind_apply, declaredClass, run_get_bind, hsource]
  simp only
  rcases hrun : (sourceClass tree path name reflected).run s' with ⟨r, s''⟩
  rw [hrun] at hclass
  obtain rfl : r = _ := hclass
  rcases ((Analysis.buildClass s'.settings.keepReflected path.text reflected cls).run s'.docs).1
    with _ | _ <;> rfl

/-! ### New sessions -/

theorem orFail_eq_ok {α : Type} {failure : Library → Trouble → Failure} {step : StepM α} {a : α} :
    ((orFail failure step).run s).1 = .ok a ↔ (step.run s).1 = .ok a := by
  rw [orFail_eq]
  exact mapError_eq_ok

/-- Where no record is kept for a key, the record is that of the analysis. -/
theorem byValue_keeping {κ α : Type} [DecidableEq κ] {memo : Session → Memo κ α}
    {withMemo : Session → Memo κ α → Session} {key : κ} {analysis : RunM α}
    (h : (memo s).find? key = none) :
    (byValue Stored.value (keeping memo withMemo key analysis) s).1 = (analysis.run s).1 := by
  show ((keeping memo withMemo key analysis).run s).1.map Stored.value = _
  rw [keeping_of_none h]
  rcases analysis.run s with ⟨_ | _, _⟩ <;> rfl

variable {u : Setup}

theorem fileReport_of_analyzeFile {report : FileReport}
    (h : (byValue Stored.value (analyzeFile tree path) u.session).1 = .ok report) :
    ((fileReport tree path).run u.session).1 = .ok report := by
  rw [analyzeFile, byValue_bind] at h
  unfold fileKey at h
  split_ifs at h
  · cases h
  · exact orFail_eq_ok.mp ((byValue_keeping rfl).symm.trans h)

/-- In a new session a class is given exactly if its record can be made. -/
theorem analyzeClass_eq_ok {decl : ClassDecl} :
    (byValue Stored.value (analyzeClass tree name file) u.session).1 = .ok decl ↔
      ((classDecl tree name file).run u.session).1 = .ok decl := by
  rw [analyzeClass, byValue_keeping rfl]
  exact orFail_eq_ok

end Session

end TypeFacts
