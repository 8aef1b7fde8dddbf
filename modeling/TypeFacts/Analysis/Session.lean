import TypeFacts.Analysis.Build
import TypeFacts.Declaration.Json
import TypeFacts.Failure
import TypeFacts.Outline.Read
import TypeFacts.Tree.SourceReader

/-!
# Analyses

A session analyses files, loaded classes and loaded functions, alone or many at a time. It keeps the
records it gave, by resolved path or folded name, and gives them again until it is cleared. What it
keeps survives a failed analysis.

Encodings that are not described here and the wording of a faulty type come from the library of the
session.
-/

namespace TypeFacts

/-- What an analyzer keeps. -/
structure Session where
  reader : SourceReader
  functionTypes : Infer.FunctionTypes
  host : Host
  docs : Doc.Reader
  library : Library := {}
  types : Infer.TypeMemo := .empty
  files : Memo Path FileReport := .empty
  classes : Memo String ClassDecl := .empty
  functions : Memo String FunctionDecl := .empty

namespace Session

/-- A step of an analysis; it may meet a trouble. -/
abbrev StepM := ExceptT Trouble (StateM Session)

/-- An analysis; it may stop without a result. -/
abbrev RunM := ExceptT Stop (StateM Session)

/-- The settings of the session. -/
def settings (s : Session) : Settings := s.reader.settings

/-- Turns an error into a trouble. -/
def orTrouble {ε α : Type} (trouble : ε → Trouble) (x : Except ε α) : StepM α :=
  match x with
  | .ok a => return a
  | .error e => throw (trouble e)

/-- Runs a step of an analysis; a trouble becomes a failure. -/
def orFail {α : Type} (failure : Library → Trouble → Failure) (step : StepM α) : RunM α :=
  fun s => match step s with
    | (.ok a, s') => (.ok a, s')
    | (.error t, s') => (.error (.failed (failure s.library t)), s')

/-- Gives a result, or stops by a trouble that nothing deals with. -/
def orStop {ε α : Type} (trouble : ε → Trouble) (x : Except ε α) : RunM α :=
  match x with
  | .ok a => return a
  | .error e => throw (.trouble (trouble e))

/-- The record that is kept for a key, or else the one that an analysis gives, which is kept from
then on. The records are kept in the given memo of the session. -/
def keeping {κ α : Type} [DecidableEq κ] (memo : Session → Memo κ α)
    (withMemo : Session → Memo κ α → Session) (key : κ) (analysis : RunM α) : RunM (Stored α) := do
  match (memo (← get)).find? key with
  | some stored => return stored
  | none =>
    let record ← analysis
    modifyGet fun s =>
      let (stored, kept) := (memo s).store key record
      (stored, withMemo s kept)

/-! ### Collaborators -/

/-- Builds a declaration, with the doc comments read so far. -/
def build {α : Type} (x : Analysis.DocM α) : StepM α := fun s =>
  match x s.docs with
  | (.ok a, docs) => (.ok a, { s with docs := docs })
  | (.error e, docs) => (.error (.badType e), { s with docs := docs })

/-- The outline of a tree, with the types found so far. -/
def outline (root : Node) : StepM FileOutline := fun s =>
  match Outline.readTree s.functionTypes root s.types with
  | (.ok a, types) => (.ok a, { s with types := types })
  | (.error e, types) => (.error (.badType e), { s with types := types })

/-- Is the encoding one whose bytes are taken as they are? -/
def isPlainUtf8 (encoding : String) : Bool :=
  let folded := (Text.lower encoding).map fun c => if c == '_' then '-' else c
  folded == "utf-8" || folded == "utf8"

/-- The bytes of a source file in UTF-8. An empty file needs no encoding. -/
def transcode (library : Library) (encoding : String) (bytes : List UInt8) :
    Except Trouble (List UInt8) :=
  if isPlainUtf8 encoding then .ok bytes
  else if encoding.toList.any fun c => c.toNat == 0 then .error .nullInEncoding
  else if bytes.isEmpty then .ok bytes
  else
    match Encoding.ofName? encoding, library.codec? encoding with
    | some e, _ =>
      match e.decode bytes with
      | .ok cs => .ok (cs.flatMap Utf8.encodeChar)
      | .error f => .error (.undecodable f)
    | none, some codec => (codec bytes).mapError .refused
    | none, none => .error (.unknownEncoding encoding)

/-- Reads a source file into its outline and its faults. -/
def readSource (tree : FileTree) (path : Path) : StepM (FileOutline × List SourceFault) := do
  match ← orTrouble .badPath (tree.file? path) with
  | none => throw (.fileMissing path.text)
  | some bytes =>
    let s ← get
    let source ← orTrouble id (transcode s.library s.settings.sourceEncoding bytes)
    let (root, faults) ← modifyGet fun s =>
      let (found, reader) := s.reader.read source
      (found, { s with reader := reader })
    return (← outline root, faults)

/-- The reflected declaration of a class. -/
def hostClass (name : String) : StepM ClassDecl := fun s =>
  match s.host.entity name with
  | (.ok stored, host) => (.ok stored.value, { s with host := host })
  | (.error f, host) => (.error (.host f), { s with host := host })

/-- The reflected declaration of a function. -/
def hostFunction (name : String) : StepM FunctionDecl := fun s =>
  match s.host.function name with
  | (.ok stored, host) => (.ok stored.value, { s with host := host })
  | (.error f, host) => (.error (.host f), { s with host := host })

/-! ### Files -/

/-- All that a file declares, without regard to what was analysed before. -/
def fileReport (tree : FileTree) (path : Path) : StepM FileReport := do
  let (outline, faults) ← readSource tree path
  build (Analysis.buildFile (← get).settings.keepReflected path.text faults outline)

/-- The path by which the report of a file is kept. -/
def fileKey (tree : FileTree) (path : Path) : Except PathFault Path :=
  if path.hasNull then .error .nullCharacter else .ok (tree.resolve path)

/-- Analyses a file. -/
def analyzeFile (tree : FileTree) (path : Path) : RunM (Stored FileReport) := do
  let key ← orStop .badPath (fileKey tree path)
  keeping files (fun s kept => { s with files := kept }) key
    (orFail (.ofFileTrouble path.text) (fileReport tree path))

/-! ### Classes -/

/-- The declaration of a class in a source file; `none` where the file does not declare it. -/
def sourceClass (tree : FileTree) (path : Path) (name : String) (reflected : Option ClassDecl) :
    StepM (Option ClassDecl) := do
  if ← orTrouble .badPath (tree.isFile path) then
    let (outline, _) ← readSource tree path
    match outline.findClass? name with
    | none => return none
    | some c =>
      return some
        (← build (Analysis.buildClass (← get).settings.keepReflected path.text reflected c))
  else return none

/-- The reflected declaration of a class, where one is loaded. -/
def loadedClass (name : String) : StepM (Option ClassDecl) := do
  if (← get).host.isLoaded name then some <$> hostClass name else return none

/-- The source file of a class: the one given, or else the one that reflection knows. -/
def classSource (s : Session) (name : String) (file : Option Path) (reflected : Option ClassDecl) :
    Option Path :=
  file.or (if reflected.isSome && s.settings.followSource then s.host.sourceFile name else none)

/-- The declaration of a class in its source file, where it has one that declares it. -/
def declaredClass (tree : FileTree) (name : String) (file : Option Path)
    (reflected : Option ClassDecl) : StepM (Option ClassDecl) := do
  match classSource (← get) name file reflected with
  | some path => sourceClass tree path name reflected
  | none => return none

/-- The declaration of a class, without regard to what was analysed before. -/
def classDecl (tree : FileTree) (name : String) (file : Option Path) : StepM ClassDecl := do
  let reflected ← loadedClass name
  match ← declaredClass tree name file reflected, reflected with
  | some c, _ => return c
  | none, some r => build (Analysis.reflectedClass r)
  | none, none => throw (.entityMissing name)

/-- Analyses a class. -/
def analyzeClass (tree : FileTree) (name : String) (file : Option Path) :
    RunM (Stored ClassDecl) :=
  keeping classes (fun s kept => { s with classes := kept }) (foldedName name)
    (orFail (.ofTrouble name) (classDecl tree name file))

/-! ### Functions -/

/-- The declaration of a loaded function, without regard to what was analysed before. -/
def functionDecl (name : String) : StepM FunctionDecl := do
  build (Analysis.reflectedFunction (← hostFunction name))

/-- Analyses a loaded function. -/
def analyzeFunction (name : String) : RunM (Stored FunctionDecl) :=
  keeping functions (fun s kept => { s with functions := kept }) (foldedName name)
    (orFail (.ofTrouble name) (functionDecl name))

/-! ### Targets -/

/-- The record of a target. -/
inductive Record where
  | file (stored : Stored FileReport)
  | cls (stored : Stored ClassDecl)

namespace Record

/-- The stored form of a record. -/
def toJson : Record → Json
  | file stored => stored.value.toJson
  | cls stored => stored.value.toJson

/-- The text of a record. -/
def text (r : Record) (limits : Limits := {}) : Except WriteFault String :=
  match r with
  | file stored => stored.value.text limits
  | cls stored => stored.value.text limits

/-- Does a text give the record again? -/
def isReadFrom (r : Record) (limits : Limits) (text : String) : Bool :=
  match r with
  | file stored => (FileReport.ofText text limits).toOption == some stored.value
  | cls stored => (ClassDecl.ofText text limits).toOption == some stored.value

/-- Does the text of the record give the record again? -/
def readsBack (r : Record) (limits : Limits := {}) : Bool :=
  (r.text limits).toOption.any (r.isReadFrom limits)

/-- The file of a record of a file. -/
def file? : Record → Option String
  | file stored => some stored.value.file
  | cls _ => none

end Record

/-- Is the target a file or a loaded class? -/
def supports (tree : FileTree) (target : String) : RunM Bool := do
  if ← orStop .badPath (tree.isFile (Path.ofText target)) then return true
  else return (← get).host.isLoaded target

/-- Analyses a file or a loaded class. -/
def analyze (tree : FileTree) (target : String) : RunM Record := do
  let path := Path.ofText target
  if ← orStop .badPath (tree.isFile path) then return .file (← analyzeFile tree path)
  else if (← get).host.isLoaded target then return .cls (← analyzeClass tree target none)
  else throw (.failed (.notFound target (.targetMissing target)))

/-! ### Batches -/

/-- The records of several targets, and the messages of those that failed. -/
structure Batch where
  results : Table Record := .empty
  errors : Table String := .empty

namespace Batch

/-- Did every target succeed? -/
def success (b : Batch) : Bool := b.errors.entries.isEmpty

/-- The files of the records of files. -/
def files (b : Batch) : List String := b.results.values.filterMap Record.file?

end Batch

/-- Analyses one more target of a batch; a failure is noted. -/
def analyzeNext (tree : FileTree) (batch : Batch) (target : String) : RunM Batch := fun s =>
  match analyze tree target s with
  | (.ok record, s) => (.ok { batch with results := batch.results.insert target record }, s)
  | (.error (.failed f), s) =>
    (.ok { batch with errors := batch.errors.insert target f.message }, s)
  | (.error stop, s) => (.error stop, s)

/-- Analyses several targets. -/
def analyzeMany (tree : FileTree) (targets : List String) : RunM Batch :=
  targets.foldlM (analyzeNext tree) {}

/-- Analyses all files below a directory that the settings ask for. -/
def analyzeDirectory (tree : FileTree) (directory : String) : RunM Batch := do
  let root := Path.ofText directory
  match ← orStop .badPath (tree.directory? root) with
  | none => throw (.failed (.notFound root.text (.directoryMissing root.text)))
  | some _ =>
    let found ← orStop .badPath (tree.filesMatching root (← get).settings.fileGlob)
    analyzeMany tree (found.map Path.text)

/-! ### Parts -/

/-- The type of a node of a syntax tree. -/
def typeOf (n : Node) : ExceptT Ty.Fault (StateM Session) Ty := fun s =>
  let (t, types) := Infer.infer s.functionTypes n s.types
  (t, { s with types := types })

/-- The type of an expression. -/
def inferType (code : String) : ExceptT Ty.Fault (StateM Session) Ty := fun s =>
  let (node, reader) := s.reader.readExpression code
  typeOf node { s with reader := reader }

/-- The block of a doc comment. -/
def comment (text : Option String) : StateM Session DocBlock :=
  modifyGet fun s =>
    let (block, docs) := s.docs.block text
    (block, { s with docs := docs })

/-- Forgets all that was kept. -/
def clear (s : Session) : Session :=
  { s with
    reader := s.reader.clear
    host := s.host.clear
    docs := s.docs.clear
    types := s.types.clear
    files := s.files.clear
    classes := s.classes.clear
    functions := s.functions.clear }

end Session

end TypeFacts
