import TypeFacts.Analysis.Session
import TypeFacts.Proofs.Analysis.Steady
import TypeFacts.Proofs.Outline.Steady

/-!
# Sessions that keep right records

A session is sound for a new one when it was made alike and everything it keeps is what the new one
would give (`Session.Sound`). Every analysis gives in a sound session what it gives in the new one,
up to the serial numbers of the records, and leaves the session sound (`Session.steady_analyzeFile`,
`Session.steady_analyzeClass`, `Session.steady_analyzeFunction`). That the records of classes and
functions are kept by folded name is harmless, since an analysis that succeeds for one spelling of a
name gives the same for every other (`Session.classDecl_of_foldedName_eq`).
-/

namespace TypeFacts

/-! ### Names that are looked up alike -/

section Folded

variable {name name' : String} (hname : foldedName name = foldedName name')
include hname

/-- Among the classes of a snapshot, names that fold alike are one name. -/
theorem Host.class?_congr (h : Host) : h.class? name = h.class? name' := by
  simp only [Host.class?, hname]

/-- Among its functions they are one name, too. -/
theorem Host.function?_congr (h : Host) : h.function? name = h.function? name' := by
  simp only [Host.function?, hname]

/-- Names that fold alike are loaded together or not at all. -/
theorem Host.isLoaded_congr (h : Host) : h.isLoaded name = h.isLoaded name' := by
  simp only [Host.isLoaded, h.class?_congr hname]

/-- Names that fold alike have one source file. -/
theorem Host.sourceFile_congr (h : Host) : h.sourceFile name = h.sourceFile name' := by
  simp only [Host.sourceFile, h.class?_congr hname, h.function?_congr hname]

/-- In an outline, too, a class is found by its folded name. -/
theorem FileOutline.findClass?_congr (f : FileOutline) :
    f.findClass? name = f.findClass? name' := by
  unfold foldedName at hname
  simp only [FileOutline.findClass?, hname]

/-- A loaded class is described in the same way under both names. -/
theorem Host.makeClass_congr {h : Host} (hloaded : h.isLoaded name = true) :
    h.makeClass name = h.makeClass name' := by
  obtain ⟨c, hc⟩ := Option.isSome_iff_exists.mp hloaded
  simp only [Host.makeClass, ← h.class?_congr hname, hc]

theorem Host.makeFunction_congr {h : Host} (hloaded : h.isFunctionLoaded name = true) :
    h.makeFunction name = h.makeFunction name' := by
  obtain ⟨f, hf⟩ := Option.isSome_iff_exists.mp hloaded
  simp only [Host.makeFunction, ← h.function?_congr hname, hf]

/-- Asking for a loaded class gives the same under both names, and keeps it under one key. -/
theorem Host.entity_congr {h : Host} (hloaded : h.isLoaded name = true) :
    h.entity name = h.entity name' := by
  simp only [Host.entity, hname, Host.makeClass_congr hname hloaded]

theorem Host.function_congr {h : Host} (hloaded : h.isFunctionLoaded name = true) :
    h.function name = h.function name' := by
  simp only [Host.function, hname, Host.makeFunction_congr hname hloaded]

end Folded

/-! ### Hosts -/

namespace Host

/-- The host has the data of the given one, and keeps the declarations that are made from them. -/
structure Sound (b h : Host) : Prop where
  loaded_eq : h.loaded = b.loaded
  classes : h.classMemo.Holds fun key decl =>
    ∀ name, foldedName name = key → b.makeClass name = .ok decl
  functions : h.functionMemo.Holds fun key decl =>
    ∀ name, foldedName name = key → b.makeFunction name = .ok decl

variable {b h : Host}

/-- A sound host knows the same classes as the one it started from. -/
theorem Sound.class?_eq (hs : Sound b h) (name : String) : h.class? name = b.class? name := by
  simp only [class?, hs.loaded_eq]

/-- It knows the same functions. -/
theorem Sound.function?_eq (hs : Sound b h) (name : String) :
    h.function? name = b.function? name := by
  simp only [function?, hs.loaded_eq]

/-- It takes the same names for loaded. -/
theorem Sound.isLoaded_eq (hs : Sound b h) (name : String) : h.isLoaded name = b.isLoaded name := by
  simp only [isLoaded, hs.class?_eq]

/-- It finds the same source files. -/
theorem Sound.sourceFile_eq (hs : Sound b h) (name : String) :
    h.sourceFile name = b.sourceFile name := by
  simp only [sourceFile, hs.class?_eq, hs.function?_eq]

/-- Only loaded classes can be described. -/
theorem isLoaded_of_makeClass {name : String} {decl : ClassDecl}
    (hdecl : h.makeClass name = .ok decl) : h.isLoaded name = true := by
  unfold makeClass at hdecl
  cases hc : h.class? name with
  | none =>
    rw [hc] at hdecl
    cases hdecl
  | some c => simp only [isLoaded, hc, Option.isSome_some]

/-- Only loaded functions can be described. -/
theorem isFunctionLoaded_of_makeFunction {name : String} {decl : FunctionDecl}
    (hdecl : h.makeFunction name = .ok decl) : h.isFunctionLoaded name = true := by
  unfold makeFunction at hdecl
  cases hf : h.function? name with
  | none =>
    rw [hf] at hdecl
    cases hdecl
  | some f => simp only [isFunctionLoaded, hf, Option.isSome_some]

/-- Asked for a class, a sound host gives the description that a fresh one makes. -/
theorem gives_entity (b : Host) (name : String) :
    Gives (Sound b) (fun h => ((h.entity name).1.map Stored.value, (h.entity name).2))
      (b.makeClass name) := by
  intro h hs
  have hmake : h.makeClass name = b.makeClass name := by
    simp only [makeClass, hs.class?_eq]
  obtain ⟨hdecl, hmemo⟩ := hs.classes.findOrMake (fun n n' decl hname hmade => by
    rw [← makeClass_congr hname (isLoaded_of_makeClass hmade), hmade]) name
  simp only [entity, hmake]
  exact ⟨hdecl, hs.loaded_eq, hmemo, hs.functions⟩

/-- Asked for a function, it gives the description that a fresh one makes, too. -/
theorem gives_function (b : Host) (name : String) :
    Gives (Sound b) (fun h => ((h.function name).1.map Stored.value, (h.function name).2))
      (b.makeFunction name) := by
  intro h hs
  have hmake : h.makeFunction name = b.makeFunction name := by
    simp only [makeFunction, hs.function?_eq]
  obtain ⟨hdecl, hmemo⟩ := hs.functions.findOrMake (fun n n' decl hname hmade => by
    rw [← makeFunction_congr hname (isFunctionLoaded_of_makeFunction hmade), hmade]) name
  simp only [function, hmake]
  exact ⟨hdecl, hs.loaded_eq, hs.classes, hmemo⟩

end Host

namespace Session

/-! ### Trees that are read -/

/-- The tree of the source at a path, where there is one that can be read and decoded. -/
def sourceRoots (b : Session) (tree : FileTree) (path : Path) : List Node :=
  match tree.file? path with
  | .ok (some bytes) =>
    match transcode b.library b.settings.sourceEncoding bytes with
    | .ok source => [b.reader.tree source]
    | .error _ => []
  | _ => []

/-- The tree of the source of a class: the one given, or else the one that reflection knows. -/
def classRoots (b : Session) (tree : FileTree) (name : String) (file : Option Path) : List Node :=
  let known := if b.host.isLoaded name && b.settings.followSource then b.host.sourceFile name
    else none
  ((file.or known).map (b.sourceRoots tree)).getD []

/-- The tree of a file that can be read and transcoded is among those that a call reads. -/
theorem tree_mem_sourceRoots {b : Session} {tree : FileTree} {path : Path}
    {bytes source : List UInt8} (hfile : tree.file? path = .ok (some bytes))
    (hsource : transcode b.library b.settings.sourceEncoding bytes = .ok source) :
    b.reader.tree source ∈ b.sourceRoots tree path := by
  simp only [sourceRoots, hfile, hsource, List.mem_singleton]

/-! ### Sound sessions -/

/-- The session was made like the given new one, and keeps the declarations and doc blocks that the
new one would make, and for the nodes of the given trees the types that it would find. Nothing is
said of the records that it keeps. -/
structure Primed (b : Session) (Trees : Node → Prop) (s : Session) : Prop where
  parser_eq : s.reader.parser = b.reader.parser
  settings_eq : s.reader.settings = b.reader.settings
  functionTypes_eq : s.functionTypes = b.functionTypes
  library_eq : s.library = b.library
  host : Host.Sound b.host s.host
  docs : Doc.Reader.Sound b.docs.readers s.docs
  types : s.types.Holds (Infer.TypeRight b.functionTypes (Node.Among Trees))

/-- The session was made like the given new one and keeps what the new one would give: types of the
nodes of the given trees, doc blocks, reflected declarations, reports of the files that are named,
and records of classes and functions. -/
structure Sound (b : Session) (Trees : Node → Prop) (tree : FileTree) (Named : Path → Prop)
    (s : Session) : Prop extends Primed b Trees s where
  files : s.files.Holds fun key report =>
    ∀ path, Named path → tree.resolve path = key → (fileReport tree path b).1 = .ok report
  classes : s.classes.Holds fun key decl =>
    ∀ name, foldedName name = key → (classDecl tree name none b).1 = .ok decl
  functions : s.functions.Holds fun key decl =>
    ∀ name, foldedName name = key → (functionDecl name b).1 = .ok decl

/-- The records that a session keeps. -/
def records (s : Session) :
    Memo Path FileReport × Memo String ClassDecl × Memo String FunctionDecl :=
  (s.files, s.classes, s.functions)

/-- The one condition on sessions is the other one, and something about the records. -/
structure Framed (P S : Session → Prop) : Prop where
  base {s : Session} : S s → P s
  keep {s s' : Session} : S s → P s' → s'.records = s.records → S s'

/-- A condition that says nothing about the records is framed by itself. -/
theorem framed_self (P : Session → Prop) : Framed P P :=
  ⟨id, fun _ h _ => h⟩

variable {b : Session} {Trees : Node → Prop} {tree : FileTree} {Named : Path → Prop}
  {S : Session → Prop}

theorem framed_sound : Framed (Primed b Trees) (Sound b Trees tree Named) where
  base hs := hs.toPrimed
  keep {s s'} hs hs' hrecords := by
    obtain ⟨hfiles, hclasses, hfunctions⟩ := by simpa only [records, Prod.mk.injEq] using hrecords
    exact { hs' with
      files := hfiles ▸ hs.files
      classes := hclasses ▸ hs.classes
      functions := hfunctions ▸ hs.functions }

/-! ### Collaborators -/

/-- To name the trouble of a result changes neither the session nor the result. -/
theorem gives_orTrouble {ε α : Type} {Sound : Session → Prop} (trouble : ε → Trouble)
    (x : Except ε α) : Gives Sound (orTrouble trouble x).run (x.mapError trouble) := by
  cases x <;> exact gives_pure _

/-- Building changes nothing in a session but what is kept of comments. -/
theorem build_eq {α : Type} (x : Analysis.DocM α) : build x =
    fun s => ((x s.docs).1.mapError .badType, { s with docs := (x s.docs).2 }) := by
  funext s
  unfold build
  rcases x s.docs with ⟨_ | _, _⟩ <;> rfl

/-- Asking for a reflected class changes nothing in a session but the host. -/
theorem hostClass_eq (name : String) : hostClass name = fun s =>
    (((s.host.entity name).1.map Stored.value).mapError .host,
      { s with host := (s.host.entity name).2 }) := by
  funext s
  unfold hostClass
  rcases s.host.entity name with ⟨_ | _, _⟩ <;> rfl

/-- Asking for a reflected function changes nothing but the host, either. -/
theorem hostFunction_eq (name : String) : hostFunction name = fun s =>
    (((s.host.function name).1.map Stored.value).mapError .host,
      { s with host := (s.host.function name).2 }) := by
  funext s
  unfold hostFunction
  rcases s.host.function name with ⟨_ | _, _⟩ <;> rfl

section Primed

variable (hS : Framed (Primed b Trees) S)
include hS

/-- What building gives does not depend on the comments that are kept. -/
theorem steady_build {α : Type} {x : Analysis.DocM α} (h : Analysis.SteadyBuild b.docs.readers x) :
    Steady S (build x).run := by
  obtain ⟨v, hv⟩ := h
  rw [build_eq]
  exact ⟨_, hv.zoom docs (fun s d => { s with docs := d }) _ (fun s hs => (hS.base hs).docs)
    fun s d hs hd => hS.keep hs { hS.base hs with docs := hd } rfl⟩

/-- What reflection gives does not depend on the classes that are kept. -/
theorem gives_hostClass (name : String) :
    Gives S (hostClass name).run ((b.host.makeClass name).mapError .host) := by
  rw [hostClass_eq]
  exact (Host.gives_entity b.host name).zoom host (fun s h => { s with host := h }) _
    (fun s hs => (hS.base hs).host) fun s h hs hh => hS.keep hs { hS.base hs with host := hh } rfl

theorem steady_hostFunction (name : String) : Steady S (hostFunction name).run := by
  rw [hostFunction_eq]
  exact ⟨_, (Host.gives_function b.host name).zoom host (fun s h => { s with host := h }) _
    (fun s hs => (hS.base hs).host) fun s h hs hh => hS.keep hs { hS.base hs with host := hh } rfl⟩

/-- Reading a source gives its tree, and the faults that the settings ask for. -/
theorem gives_read (source : List UInt8) : Gives S
    (fun s => ((s.reader.read source).1, { s with reader := (s.reader.read source).2 }))
    (b.reader.read source).1 := by
  intro s hs
  have hprimed := hS.base hs
  refine ⟨?_, hS.keep hs { hprimed with
    parser_eq := hprimed.parser_eq, settings_eq := hprimed.settings_eq } rfl⟩
  simp only [SourceReader.read, SourceReader.tree, SourceReader.faultsOf, hprimed.parser_eq,
    hprimed.settings_eq]
  rfl

section Trees

variable (htrees : Node.Consistent (Node.Among Trees))

/-- A computation that finds types with those that are kept, and keeps them in turn. -/
theorem steady_of_types {α β : Type} {y : StateM Session β}
    {x : Infer.FunctionTypes → Infer.InferM α}
    {f : Except Ty.Fault α → β}
    (hx : Outline.SteadyReader b.functionTypes (Node.Among Trees) (x b.functionTypes))
    (hy : ∀ s, y s = (f (x s.functionTypes s.types).1,
      { s with types := (x s.functionTypes s.types).2 })) : Steady S y := by
  obtain ⟨v, hv⟩ := hx
  refine ⟨f v, fun s hs => ?_⟩
  have hprimed := hS.base hs
  obtain ⟨hval, hsound⟩ := hv s.types hprimed.types
  rw [← hprimed.functionTypes_eq] at hval hsound
  rw [hy]
  exact ⟨congrArg f hval, hS.keep hs { hprimed with
    types := hprimed.functionTypes_eq ▸ hsound } rfl⟩

include htrees

/-- The outline of a tree that may be read does not depend on the types that are kept. -/
theorem steady_outline {root : Node} (hroot : Trees root) : Steady S (outline root).run := by
  refine steady_of_types hS (x := fun functions => Outline.readTree functions root)
    (f := Except.mapError Trouble.badType)
    (Outline.steady_readTree htrees (Node.closed_among Trees) (Node.among_root hroot)) fun s => ?_
  show outline root s = _
  unfold outline
  rcases Outline.readTree s.functionTypes root s.types with ⟨_ | _, _⟩ <;> rfl

/-- Neither does the type of an expression in such a tree. -/
theorem steady_typeOf {n : Node} (hn : Node.Among Trees n) : Steady S (typeOf n).run :=
  steady_of_types hS (x := fun functions => Infer.infer functions n) (f := id)
    (Outline.steady_infer htrees (Node.closed_among Trees) hn) fun _ => rfl

/-- What is read of a file depends on the file and the parser only. -/
theorem steady_readSource {path : Path} (hroots : ∀ root ∈ b.sourceRoots tree path, Trees root) :
    Steady S (readSource tree path).run := by
  refine (gives_orTrouble _ _).steady_bind fun found hfound => ?_
  cases found with
  | none => exact steady_pure _
  | some bytes =>
    refine Steady.get_bind b (fun s hs => ?_) ?_
    · simp only [settings, (hS.base hs).settings_eq, (hS.base hs).library_eq]
    · refine (gives_orTrouble _ _).steady_bind fun source hsource => ?_
      have hroot : Trees (b.reader.tree source) := hroots _
        (tree_mem_sourceRoots (mapError_eq_ok.mp hfound) (mapError_eq_ok.mp hsource))
      have hread : Gives S (ExceptT.run (modifyGet fun s =>
          ((s.reader.read source).1, { s with reader := (s.reader.read source).2 }) :
            StepM (Node × List SourceFault))) (.ok (b.reader.read source).1) := by
        intro s hs
        obtain ⟨hval, hsound⟩ := gives_read hS source s hs
        exact ⟨congrArg Except.ok hval, hsound⟩
      refine hread.steady_bind fun r hr => ?_
      obtain rfl := Except.ok.inj hr
      exact (steady_outline hS htrees hroot).bind fun _ => steady_pure _

/-! ### Records without regard to what is kept -/

/-- So does the report on a file. -/
theorem steady_fileReport {path : Path} (hroots : ∀ root ∈ b.sourceRoots tree path, Trees root) :
    Steady S (fileReport tree path).run := by
  refine (steady_readSource hS htrees hroots).bind fun r => Steady.get_bind b (fun s hs => ?_) ?_
  · simp only [settings, (hS.base hs).settings_eq]
  · exact steady_build hS (Analysis.steady_buildFile _ _ _ _)

/-- A class of a file is found and built in the same way in all sound sessions. -/
theorem steady_sourceClass {path : Path} (hroots : ∀ root ∈ b.sourceRoots tree path, Trees root)
    (name : String) (reflected : Option ClassDecl) :
    Steady S (sourceClass tree path name reflected).run := by
  refine (gives_orTrouble _ _).steady_bind fun isFile _ => ?_
  cases isFile with
  | false => exact steady_pure _
  | true =>
    refine (steady_readSource hS htrees hroots).bind fun r => ?_
    simp only
    split
    · exact steady_pure _
    · refine Steady.get_bind b (fun s hs => ?_) ?_
      · simp only [settings, (hS.base hs).settings_eq]
      · exact (steady_build hS (Analysis.steady_buildClass _ _ _ _)).bind fun _ => steady_pure _

omit htrees in
/-- A reflected declaration is there where the class is loaded. -/
theorem gives_loadedClass (name : String) : Gives S (loadedClass name).run
    (if b.host.isLoaded name then ((b.host.makeClass name).mapError .host).map some
      else .ok none) := by
  intro s hs
  rw [loadedClass, run_get_bind, (hS.base hs).host.isLoaded_eq]
  split
  · rw [run_map_apply]
    exact (gives_hostClass hS name).mapResult (Except.map some) s hs
  · exact ⟨rfl, hs⟩

omit hS htrees in
/-- The file that a class is looked up in depends on settings and host only. -/
theorem Primed.classSource_eq {s : Session} (hs : Primed b Trees s) (name : String)
    (file : Option Path) (reflected : Option ClassDecl) :
    s.classSource name file reflected = b.classSource name file reflected := by
  simp only [classSource, Session.settings, hs.settings_eq, hs.host.sourceFile_eq]
  rfl

/-- A class is built from its source in the same way in all sound sessions, with what
reflection says. -/
theorem steady_declaredClass {name : String} {file : Option Path} {reflected : Option ClassDecl}
    (hroots : ∀ path, b.classSource name file reflected = some path →
      ∀ root ∈ b.sourceRoots tree path, Trees root) :
    Steady S (declaredClass tree name file reflected).run := by
  refine Steady.get_bind b (fun s hs => ?_) ?_
  · rw [(hS.base hs).classSource_eq]
  · split
    · next path hpath => exact steady_sourceClass hS htrees (hroots path hpath) _ _
    · exact steady_pure _

/-- So is the whole record of a class, as far as its trees may be read. -/
theorem steady_classDecl {name : String} {file : Option Path}
    (hroots : ∀ root ∈ b.classRoots tree name file, Trees root) :
    Steady S (classDecl tree name file).run := by
  refine (gives_loadedClass hS name).steady_bind fun reflected hreflected => ?_
  have hloaded : b.host.isLoaded name = reflected.isSome := by
    split at hreflected
    · next h =>
      obtain ⟨decl, -, rfl⟩ := exists_of_map_eq_ok hreflected
      exact h
    · next h =>
      obtain rfl := Except.ok.inj hreflected
      exact Bool.eq_false_iff.mpr h
  have hsource : ∀ path, b.classSource name file reflected = some path →
      ∀ root ∈ b.sourceRoots tree path, Trees root := by
    intro path hpath root hroot
    refine hroots root ?_
    rw [classSource, ← hloaded] at hpath
    rw [classRoots, hpath]
    exact hroot
  refine (steady_declaredClass hS htrees hsource).bind fun source => ?_
  split
  · exact steady_pure _
  · exact steady_build hS (Analysis.steady_reflectedClass _)
  · exact steady_pure _

omit htrees in
/-- So is the record of a function. -/
theorem steady_functionDecl (name : String) : Steady S (functionDecl name).run :=
  (steady_hostFunction hS name).bind fun _ => steady_build hS (Analysis.steady_reflectedFunction _)

end Trees

end Primed

/-! ### Records by folded names -/

section Folded

variable {name name' : String} (hname : foldedName name = foldedName name')
include hname

/-- A loaded class is reflected alike under both names. -/
theorem hostClass_congr {s : Session} (hloaded : s.host.isLoaded name = true) :
    (hostClass name).run s = (hostClass name').run s := by
  simp only [hostClass_eq, ExceptT.run, Host.entity_congr hname hloaded]

/-- So is a loaded function. -/
theorem hostFunction_congr {s : Session} (hloaded : s.host.isFunctionLoaded name = true) :
    (hostFunction name).run s = (hostFunction name').run s := by
  simp only [hostFunction_eq, ExceptT.run, Host.function_congr hname hloaded]

/-- In its source a class is found alike under both names. -/
theorem declaredClass_congr (file : Option Path) (reflected : Option ClassDecl) :
    declaredClass tree name file reflected = declaredClass tree name' file reflected := by
  have hsource : ∀ s : Session,
      s.classSource name file reflected = s.classSource name' file reflected := by
    intro s
    simp only [classSource, s.host.sourceFile_congr hname]
  simp only [declaredClass, sourceClass, hsource, FileOutline.findClass?_congr hname]

omit hname in
/-- Of a loaded class reflection is asked. -/
theorem loadedClass_run {s : Session} (hloaded : s.host.isLoaded name = true) :
    (loadedClass name).run s = match (hostClass name).run s with
      | (.ok decl, s) => (.ok (some decl), s)
      | (.error t, s) => (.error t, s) := by
  rw [loadedClass, run_get_bind, if_pos hloaded, map_eq_pure_bind, run_bind_apply]
  rcases (hostClass name).run s with ⟨_ | _, _⟩ <;> rfl

omit hname in
/-- Of a class that is not loaded it is not asked. -/
theorem loadedClass_run_of_not_loaded {s : Session} (hloaded : s.host.isLoaded name = false) :
    (loadedClass name).run s = (.ok none, s) := by
  rw [loadedClass, run_get_bind, if_neg (by rw [hloaded]; decide)]
  rfl

/-- The analysis of a loaded class is the same for all names with one folded form. -/
theorem classDecl_congr {s : Session} (hloaded : s.host.isLoaded name = true) (file : Option Path) :
    (classDecl tree name file).run s = (classDecl tree name' file).run s := by
  have hloaded' : s.host.isLoaded name' = true := by rw [← s.host.isLoaded_congr hname, hloaded]
  rw [classDecl, classDecl, run_bind_apply, run_bind_apply, loadedClass_run hloaded,
    loadedClass_run hloaded', hostClass_congr hname hloaded]
  rcases (hostClass name').run s with ⟨_ | decl, s'⟩
  · rfl
  · simp only [run_bind_apply, declaredClass_congr hname]
    rcases (declaredClass tree name' file (some decl)).run s' with ⟨_ | _ | _, _⟩ <;> rfl

/-- An analysis of a class that succeeds gives the same for all names with one folded form. -/
theorem classDecl_of_foldedName_eq {s : Session} {file : Option Path} {decl : ClassDecl}
    (h : (classDecl tree name file s).1 = .ok decl) :
    (classDecl tree name' file s).1 = .ok decl := by
  cases hloaded : s.host.isLoaded name with
  | true =>
    rw [← h]
    exact congrArg Prod.fst (classDecl_congr hname hloaded file).symm
  | false =>
    -- a class that is not loaded is found in the source or not at all
    have hloaded' : s.host.isLoaded name' = false := by rw [← s.host.isLoaded_congr hname, hloaded]
    change ((classDecl tree name file).run s).1 = .ok decl at h
    show ((classDecl tree name' file).run s).1 = .ok decl
    rw [classDecl, run_bind_apply, loadedClass_run_of_not_loaded hloaded] at h
    rw [classDecl, run_bind_apply, loadedClass_run_of_not_loaded hloaded']
    simp only [run_bind_apply, declaredClass_congr hname] at h ⊢
    rcases hsource : (declaredClass tree name' file none).run s with ⟨_ | _ | c, s'⟩
    · rw [hsource] at h
      cases h
    · rw [hsource] at h
      cases h
    · rw [hsource] at h
      exact h

omit hname in
/-- Without a file of its own, a class that is not loaded has no source either. -/
theorem classDecl_of_not_loaded {s : Session} (hloaded : s.host.isLoaded name = false) :
    (classDecl tree name none).run s = (.error (.entityMissing name), s) := by
  rw [classDecl, run_bind_apply, loadedClass_run_of_not_loaded hloaded]
  rfl

/-- An analysis of a function that succeeds gives the same for all names with one folded form. -/
theorem functionDecl_of_foldedName_eq {s : Session} (hs : Host.Sound s.host s.host)
    {decl : FunctionDecl} (h : (functionDecl name s).1 = .ok decl) :
    (functionDecl name' s).1 = .ok decl := by
  cases hloaded : s.host.isFunctionLoaded name with
  | true =>
    have hrun : (functionDecl name').run s = (functionDecl name).run s := by
      rw [functionDecl, functionDecl, run_bind_apply, run_bind_apply,
        hostFunction_congr hname hloaded]
    rw [← h]
    exact congrArg Prod.fst hrun
  | false =>
    have hmake : s.host.makeFunction name = .error (.functionNotLoaded name) := by
      simp only [Host.makeFunction,
        Option.isNone_iff_eq_none.mp (Option.isSome_eq_false_iff.mp hloaded)]
    have hfails : ((hostFunction name).run s).1 = .error (.host (.functionNotLoaded name)) := by
      have hhost : (s.host.function name).1.map Stored.value = .error (.functionNotLoaded name) :=
        (Host.gives_function s.host name s.host hs).1.trans hmake
      simp only [hostFunction_eq, ExceptT.run, hhost]
      rfl
    have hrun : ((functionDecl name).run s).1 = .ok decl := h
    rw [functionDecl, run_bind_apply] at hrun
    rcases hx : (hostFunction name).run s with ⟨_ | f, s'⟩
    · rw [hx] at hrun
      cases hrun
    · rw [hx] at hfails
      cases hfails

end Folded

/-! ### Records with regard to what is kept -/

/-- An analysis by the values of the records it gives, without their serial numbers. -/
def byValue {α β : Type} (value : α → β) (x : RunM α) : StateM Session (Except Stop β) :=
  fun s => ((x s).1.map value, (x s).2)

/-- A step that fails leaves the session as the step left it, with the failure made from
the trouble. -/
theorem orFail_eq {α : Type} (failure : Library → Trouble → Failure) (step : StepM α) :
    orFail failure step =
      fun s => ((step s).1.mapError fun t => .failed (failure s.library t), (step s).2) := by
  funext s
  unfold orFail
  rcases step s with ⟨_ | _, _⟩ <;> rfl

/-- What a step gives, with a trouble turned into a failure. -/
theorem gives_orFail {α : Type} (hS : Framed (Primed b Trees) S) {step : StepM α}
    {v : Except Trouble α} (h : Gives S step.run v) (failure : Library → Trouble → Failure) :
    Gives S (orFail failure step).run (v.mapError fun t => .failed (failure b.library t)) := by
  intro s hs
  rw [orFail_eq, ← (hS.base hs).library_eq]
  exact h.mapResult (Except.mapError fun t => Stop.failed (failure s.library t)) s hs

section Memo

variable {κ α : Type} [DecidableEq κ] {memo : Session → Memo κ α}
  {withMemo : Session → Memo κ α → Session} {key : κ} {analysis : RunM α} {s : Session}

/-- What is kept is given without another look. -/
theorem keeping_of_find {stored : Stored α} (h : (memo s).find? key = some stored) :
    (keeping memo withMemo key analysis).run s = (.ok stored, s) := by
  rw [keeping, run_get_bind, h]
  rfl

/-- A new record goes into the session that the analysis leaves behind, which may keep more
by then. -/
theorem keeping_of_none (h : (memo s).find? key = none) :
    (keeping memo withMemo key analysis).run s = match analysis.run s with
      | (.ok record, s') => (.ok ((memo s').store key record).1,
          withMemo s' ((memo s').store key record).2)
      | (.error stop, s') => (.error stop, s') := by
  rw [keeping, run_get_bind, h]
  simp only
  rw [run_bind_apply]
  rcases analysis.run s with ⟨_ | _, _⟩ <;> rfl

variable {failure : Library → Trouble → Failure} {step : StepM α} {s' : Session}

/-- A failure is not kept. -/
theorem keeping_of_error {t : Trouble} (h : (memo s).find? key = none)
    (hrun : step.run s = (.error t, s')) :
    (keeping memo withMemo key (orFail failure step)).run s
      = (.error (.failed (failure s.library t)), s') := by
  have hfail : (orFail failure step).run s = (.error (.failed (failure s.library t)), s') := by
    rw [orFail_eq]
    exact congrArg (fun r => (r.1.mapError fun t => Stop.failed (failure s.library t), r.2)) hrun
  rw [keeping_of_none h, hfail]

/-- A new record is kept. -/
theorem keeping_of_ok {record : α} (h : (memo s).find? key = none)
    (hrun : step.run s = (.ok record, s')) :
    (keeping memo withMemo key (orFail failure step)).run s =
      (.ok ((memo s').store key record).1, withMemo s' ((memo s').store key record).2) := by
  have hok : (orFail failure step).run s = (.ok record, s') := by
    rw [orFail_eq]
    exact congrArg (fun r => (r.1.mapError fun t => Stop.failed (failure s.library t), r.2)) hrun
  rw [keeping_of_none h, hok]

/-- Where a record is right for its key exactly if the analysis gives it, keeping records changes
no result. -/
theorem gives_keeping {Sound : Session → Prop} {Right : κ → α → Prop} {v : Except Stop α}
    (h : Gives Sound analysis.run v) (hmemo : ∀ s, Sound s → (memo s).Holds Right)
    (hwith : ∀ s m, Sound s → m.Holds Right → Sound (withMemo s m))
    (hright : ∀ record, v = .ok record ↔ Right key record) :
    Gives Sound (byValue Stored.value (keeping memo withMemo key analysis)) v := by
  intro s hs
  obtain ⟨hv, hsound⟩ := h s hs
  show ((keeping memo withMemo key analysis).run s).1.map Stored.value = v ∧
    Sound ((keeping memo withMemo key analysis).run s).2
  cases hfind : (memo s).find? key with
  | some stored =>
    rw [keeping_of_find hfind]
    exact ⟨((hright _).mpr (hmemo s hs key stored hfind)).symm, hs⟩
  | none =>
    rw [keeping_of_none hfind]
    rcases ha : analysis.run s with ⟨stop | record, s'⟩
    all_goals rw [ha] at hv hsound
    · exact ⟨hv, hsound⟩
    · exact ⟨hv, hwith s' _ hsound ((hmemo s' hsound).store ((hright record).mp hv.symm))⟩

end Memo

/-- A path with the null character is refused before the file is looked up. -/
theorem analyzeFile_eq_of_null {path : Path} (hnull : path.hasNull = true) :
    analyzeFile tree path = throw (.trouble (.badPath .nullCharacter)) := by
  rw [analyzeFile, fileKey, if_pos hnull]
  rfl

theorem analyzeFile_eq {path : Path} (hnull : path.hasNull = false) :
    analyzeFile tree path = keeping files (fun s kept => { s with files := kept })
      (tree.resolve path) (orFail (.ofFileTrouble path.text) (fileReport tree path)) := by
  rw [analyzeFile, fileKey, if_neg (by rw [hnull]; decide)]
  exact pure_bind (tree.resolve path) _

section Keeping

variable (htrees : Node.Consistent (Node.Among Trees)) (hb : Sound b Trees tree Named b)
include htrees hb

/-- A kept report is that of the file, since files are named by one path each. -/
theorem steady_analyzeFile
    (hone : ∀ p q, Named p → Named q → tree.resolve p = tree.resolve q → p = q) {path : Path}
    (hroots : ∀ root ∈ b.sourceRoots tree path, Trees root) (hnamed : Named path) :
    Steady (Sound b Trees tree Named) (byValue Stored.value (analyzeFile tree path)) := by
  cases hnull : path.hasNull with
  | true =>
    rw [analyzeFile_eq_of_null hnull]
    exact steady_pure _
  | false =>
    rw [analyzeFile_eq hnull]
    have hreport := (steady_fileReport framed_sound htrees hroots).gives hb
    refine ⟨_, gives_keeping (gives_orFail framed_sound hreport _) (fun s hs => hs.files)
      (fun s m hs hm => { hs with files := hm }) fun report => ?_⟩
    refine mapError_eq_ok.trans ⟨fun hreport p hp hresolved => ?_, fun h => h path hnamed rfl⟩
    rw [hone p path hp hnamed hresolved]
    exact hreport

/-- The class that an analysis gives does not depend on what is kept, ages of records apart. -/
theorem steady_analyzeClass {name : String}
    (hroots : ∀ root ∈ b.classRoots tree name none, Trees root) :
    Steady (Sound b Trees tree Named) (byValue Stored.value (analyzeClass tree name none)) := by
  have hdecl := (steady_classDecl framed_sound htrees hroots).gives hb
  refine ⟨_, gives_keeping (gives_orFail framed_sound hdecl _) (fun s hs => hs.classes)
    (fun s m hs hm => { hs with classes := hm }) fun decl => ?_⟩
  refine mapError_eq_ok.trans ⟨fun hdecl name' hname => ?_, fun h => h name rfl⟩
  exact classDecl_of_foldedName_eq hname.symm hdecl

omit htrees in
/-- Neither does the function. -/
theorem steady_analyzeFunction (name : String) :
    Steady (Sound b Trees tree Named) (byValue Stored.value (analyzeFunction name)) := by
  have hdecl := (steady_functionDecl framed_sound name).gives hb
  refine ⟨_, gives_keeping (gives_orFail framed_sound hdecl _) (fun s hs => hs.functions)
    (fun s m hs hm => { hs with functions := hm }) fun decl => ?_⟩
  refine mapError_eq_ok.trans ⟨fun hdecl name' hname => ?_, fun h => h name rfl⟩
  exact functionDecl_of_foldedName_eq hname.symm hb.host hdecl

end Keeping

end Session

end TypeFacts
