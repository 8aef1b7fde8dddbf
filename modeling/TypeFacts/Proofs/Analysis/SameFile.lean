import TypeFacts.Proofs.Analysis.Source

/-!
# Two paths to one file

Reports of files are kept by resolved paths, and a resolved path is found without looking at the
files. This is right as far as it goes: where two paths lead to files and resolve alike, they lead
to one file, and its reports under both paths are the same but for the name of the file
(`Session.fileReport_of_resolve_eq`).
-/

namespace TypeFacts

/-! ### The name of the file in a report -/

/-- The function with another name of its file. -/
def FunctionDecl.withFile (file : String) (f : FunctionDecl) : FunctionDecl :=
  { f with file := some file }

/-- The method with another name of its file. -/
def MethodDecl.withFile (file : String) (m : MethodDecl) : MethodDecl :=
  { m with toFunctionDecl := m.toFunctionDecl.withFile file }

/-- The class with another name of its file, for its methods too. -/
def ClassDecl.withFile (file : String) (c : ClassDecl) : ClassDecl :=
  { c with methods := c.methods.mapValues (MethodDecl.withFile file), file := some file }

/-- The report with another name of the file, for all that it lists too. -/
def FileReport.withFile (file : String) (r : FileReport) : FileReport :=
  { r with
    file := file
    classes := r.classes.mapValues (ClassDecl.withFile file)
    functions := r.functions.mapValues (FunctionDecl.withFile file) }

theorem Table.mapValues_insertAll {α β : Type} (f : α → β) (pairs : List (String × α)) :
    ∀ t : Table α, (t.insertAll pairs).mapValues f
      = (t.mapValues f).insertAll (pairs.map fun p => (p.1, f p.2)) := by
  induction pairs with
  | nil => exact fun t => rfl
  | cons p pairs ih =>
    intro t
    rw [List.map_cons]
    show ((t.insert p.1 p.2).insertAll pairs).mapValues f = _
    rw [ih, mapValues_insert]
    rfl

theorem Table.mapValues_ofList {α β : Type} (f : α → β) (pairs : List (String × α)) :
    (ofList pairs).mapValues f = ofList (pairs.map fun p => (p.1, f p.2)) :=
  mapValues_insertAll f pairs empty

theorem mapM_map_result {m : Type → Type} [Monad m] [LawfulMonad m] {α β γ : Type} (g : β → γ)
    (f : α → m β) (l : List α) : l.mapM (fun a => g <$> f a) = List.map g <$> l.mapM f := by
  induction l with
  | nil => simp
  | cons a l ih => simp [List.mapM_cons, ih]

namespace Analysis

variable (file file' : String) (keep : Bool) (cls : ClassOutline)

/-- A function is built alike for every file, but for the name of the file. -/
theorem sourceFunction_withFile (name : String) (scope : Scope) (reflected : Option FunctionDecl)
    (f : FunctionOutline) : sourceFunction name scope file' reflected f
      = FunctionDecl.withFile file' <$> sourceFunction name scope file reflected f := by
  simp [sourceFunction, FunctionDecl.withFile]

theorem sourceMethod_withFile (reflected : Option MethodDecl) (m : FunctionOutline) :
    sourceMethod cls file' reflected m
      = MethodDecl.withFile file' <$> sourceMethod cls file reflected m := by
  simp [sourceMethod, sourceFunction_withFile file file', MethodDecl.withFile]

/-- Where nothing is loaded of a class, its methods are those of the source. -/
theorem buildMethods_none : buildMethods keep cls file none = Table.ofList <$>
    cls.methods.mapM fun m => do return (m.name, ← sourceMethod cls file none m) := by
  have hknown : methodsIgnoringCase none = Table.empty := rfl
  cases keep <;> simp [buildMethods, hknown, Table.empty, Table.get?, Pairs.get?, Table.insertAll]

theorem buildMethods_withFile : buildMethods keep cls file' none
    = Table.mapValues (MethodDecl.withFile file') <$> buildMethods keep cls file none := by
  have hrow : ∀ m, (do return (m.name, ← sourceMethod cls file' none m) : DocM _)
      = (fun e => (e.1, e.2.withFile file'))
        <$> (do return (m.name, ← sourceMethod cls file none m) : DocM (String × MethodDecl)) := by
    intro m
    simp [sourceMethod_withFile file file']
  rw [buildMethods_none, buildMethods_none]
  simp only [hrow, mapM_map_result, Functor.map_map, Table.mapValues_ofList]

theorem isConstructor_withFile (m : MethodDecl) :
    (m.withFile file').isConstructor = m.isConstructor := rfl

/-- The name of the file has no part in the types of properties. -/
theorem buildProperties_withFile (constructor : Option MethodDecl) :
    buildProperties keep cls (constructor.map (MethodDecl.withFile file')) none
      = buildProperties keep cls constructor none := by
  have hpromoted : ∀ name, promotedType (constructor.map (MethodDecl.withFile file')) name
      = promotedType constructor name := by
    intro name
    cases constructor <;> rfl
  simp only [buildProperties, sourceProperty, hpromoted]

/-- A class is built alike for every file, but for the name of the file. -/
theorem buildClass_withFile : buildClass keep file' none cls
    = ClassDecl.withFile file' <$> buildClass keep file none cls := by
  simp [buildClass, buildMethods_withFile file file', Function.comp_def, isConstructor_withFile,
    buildProperties_withFile, ClassDecl.withFile]

/-- So is the report on a file. -/
theorem buildFile_withFile (faults : List SourceFault) (outline : FileOutline) :
    buildFile keep file' faults outline
      = FileReport.withFile file' <$> buildFile keep file faults outline := by
  have hclass : ∀ c : ClassOutline, (do return (c.name, ← buildClass keep file' none c) : DocM _)
      = (fun e => (e.1, e.2.withFile file'))
        <$> (do return (c.name, ← buildClass keep file none c) : DocM (String × ClassDecl)) := by
    intro c
    simp [buildClass_withFile file file']
  have hfunction : ∀ f : FunctionOutline,
      (do return (f.qualifiedName, ← sourceFunction f.qualifiedName f.scope file' none f) : DocM _)
      = (fun e => (e.1, e.2.withFile file'))
        <$> (do return (f.qualifiedName, ← sourceFunction f.qualifiedName f.scope file none f) :
          DocM (String × FunctionDecl)) := by
    intro f
    simp [sourceFunction_withFile file file']
  simp only [buildFile, hclass, hfunction, mapM_map_result]
  simp [FileReport.withFile, Table.mapValues_ofList]

end Analysis

namespace Session

variable {tree : FileTree} {p q : Path}

theorem build_map {α β : Type} (f : α → β) (x : Analysis.DocM α) :
    build (f <$> x) = f <$> build x := by
  have hmap : ∀ v : Except Ty.Fault α,
      (v.map f).mapError Trouble.badType = (v.mapError Trouble.badType).map f := by
    intro v
    cases v <;> rfl
  funext s
  show (build (f <$> x)).run s = (f <$> build x).run s
  rw [run_map_apply, build_eq, build_eq]
  show (((f <$> x).run s.docs).1.mapError Trouble.badType,
    { s with docs := ((f <$> x).run s.docs).2 }) = _
  rw [run_map_apply, hmap]
  rfl

/-- Under two paths to one file, its reports differ in the name of the file only. -/
theorem fileReport_of_resolve_eq {bytes : List UInt8} (hp : tree.file? p = .ok (some bytes))
    (hq : tree.isFile q = .ok true) (h : tree.resolve p = tree.resolve q) :
    fileReport tree q = FileReport.withFile q.text <$> fileReport tree p := by
  have hread : readSource tree q = readSource tree p := by
    rw [readSource, readSource, FileTree.file?_of_resolve_eq hp hq h, hp]
    simp only [orTrouble, pure_bind]
  simp only [fileReport, hread, Analysis.buildFile_withFile p.text q.text, build_map, map_bind]

theorem file?_of_fileReport {s : Session} {report : FileReport}
    (h : ((fileReport tree p).run s).1 = .ok report) :
    ∃ bytes, tree.file? p = .ok (some bytes) := by
  rw [fileReport, run_bind_apply] at h
  rcases hread : (readSource tree p).run s with ⟨t | r, s'⟩
  · rw [hread] at h
    cases h
  · exact file?_of_readSource (r := r) (congrArg Prod.fst hread)

/-- A file whose report can be made under one path to it has one under every path. -/
theorem exists_fileReport_of_resolve_eq {s : Session} {report : FileReport}
    (hq : tree.isFile q = .ok true) (h : tree.resolve p = tree.resolve q)
    (hreport : ((fileReport tree p).run s).1 = .ok report) :
    ((fileReport tree q).run s).1 = .ok (report.withFile q.text) := by
  obtain ⟨bytes, hbytes⟩ := file?_of_fileReport hreport
  rw [fileReport_of_resolve_eq hbytes hq h, run_map_apply, hreport]
  rfl

end Session

end TypeFacts
