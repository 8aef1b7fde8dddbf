import TypeFacts.Files.Path
import TypeFacts.Files.Wildcard
import TypeFacts.Text.Utf8

/-!
# File trees

All files and directories from the root on, and the place of the working directory among them; there
are no symbolic links. A path is followed component by component. A directory that is gone through
has to be searchable, and a component that is too long is an error once it is reached; a path
through something that is no directory leads nowhere. A path with the null character names nothing
and is not followed at all, however long it is.
-/

namespace TypeFacts

/-- What a place in a file tree holds, and what may be done with it. -/
inductive FileEntry where
  | file (bytes : List UInt8) (readable : Bool := true)
  /-- The names in a directory may be listed or not, and looked up or not. -/
  | directory (listable : Bool := true) (searchable : Bool := true)
  deriving DecidableEq, Repr

/-- Is the entry a directory? -/
def FileEntry.isDirectory : FileEntry → Bool
  | directory .. => true
  | file .. => false

/-- Files and directories by their places, and the place of the working directory. The root itself
is not listed. -/
structure FileTree where
  entries : List (List String × FileEntry) := []
  working : List String := []
  deriving DecidableEq, Repr, Inhabited

/-- Why files cannot be looked up. -/
inductive PathFault where
  /-- A component of the path, or the path as a whole, is too long. -/
  | nameTooLong (path : String)
  /-- A directory on the way, or the file at the end, is closed to the program. -/
  | permissionDenied (path : String)
  /-- The path has the character that ends texts for the operating system. -/
  | nullCharacter
  /-- A wildcard that begins at the root of all files. -/
  | absolutePattern
  /-- Two stars next to other characters. -/
  | mixedStars
  deriving DecidableEq, Repr

namespace FileTree

/-- The longest component in bytes. -/
def longestName : Nat := 255

/-- The longest path in bytes. -/
def longestPath : Nat := 4095

/-- Where a path leads. -/
inductive Target where
  | nothing
  | file (bytes : List UInt8) (readable : Bool)
  | directory (place : List String)
  deriving DecidableEq, Repr

/-- What keeps a path from being followed. -/
inductive Obstacle where
  | longName
  | noSearch
  deriving DecidableEq, Repr

/-- The fault of a path that an obstacle makes. -/
def Obstacle.fault (path : String) : Obstacle → PathFault
  | longName => .nameTooLong path
  | noSearch => .permissionDenied path

/-- What stands at a place. -/
def entry? (t : FileTree) (place : List String) : Option FileEntry :=
  if place.isEmpty then some .directory else (t.entries.find? (·.1 == place)).map (·.2)

/-- What a path leads to that ends at a place. -/
def target (t : FileTree) (place : List String) : Target :=
  match t.entry? place with
  | none => .nothing
  | some (.file bytes readable) => .file bytes readable
  | some (.directory ..) => .directory place

/-- Is a component too long? -/
def isLongName (name : String) : Bool :=
  longestName < (Utf8.encode name).length

/-- The place that one component leads to; `none` where there is no directory to look in. -/
def step (t : FileTree) (place : List String) (name : String) :
    Except Obstacle (Option (List String)) :=
  match t.entry? place with
  | some (.directory _ true) =>
    if name != "." && name != ".." && isLongName name then .error .longName
    else .ok (some (Path.enter place name))
  | some (.directory _ false) => .error .noSearch
  | _ => .ok none

/-- Follows components from a place on. -/
def follow (t : FileTree) (place : List String) : List String → Except Obstacle Target
  | [] => .ok (t.target place)
  | name :: rest => do
    match ← t.step place name with
    | none => return .nothing
    | some inner => t.follow inner rest

/-- The place where a path begins. -/
def start (t : FileTree) (p : Path) : List String :=
  if p.isAbsolute then [] else t.working

/-- The path from the root to the place that a path leads to. Two paths name one file where they
agree after this. -/
def resolve (t : FileTree) (p : Path) : Path :=
  ⟨"/", Path.settle (t.start p) p.parts⟩

/-- Where a path leads. -/
def locate (t : FileTree) (p : Path) : Except PathFault Target :=
  if p.hasNull then .ok .nothing
  else if longestPath < (Utf8.encode p.text).length then .error (.nameTooLong p.text)
  else (t.follow (t.start p) p.steps).mapError (Obstacle.fault p.text)

/-- Is there a file at the path? -/
def isFile (t : FileTree) (p : Path) : Except PathFault Bool := do
  match ← t.locate p with
  | .file .. => return true
  | _ => return false

/-- The bytes of the file at a path; `none` where there is no file. -/
def file? (t : FileTree) (p : Path) : Except PathFault (Option (List UInt8)) := do
  match ← t.locate p with
  | .file bytes true => return some bytes
  | .file _ false => .error (.permissionDenied p.text)
  | _ => return none

/-- The place of the directory at a path; `none` where there is no directory. -/
def directory? (t : FileTree) (p : Path) : Except PathFault (Option (List String)) := do
  match ← t.locate p with
  | .directory place => return some place
  | _ => return none

/-! ### Changes -/

/-- Puts an entry at a place, instead of one that was there. -/
def put (t : FileTree) (place : List String) (e : FileEntry) : FileTree :=
  { t with entries := t.entries.filter (·.1 != place) ++ [(place, e)] }

/-- Makes the directories that components name from a place on, where they are missing. The second
part is the place they lead to. -/
def makeDirectories (t : FileTree) (place : List String) : List String → FileTree × List String
  | [] => (t, place)
  | name :: rest =>
    let inner := Path.enter place name
    let t := if (t.entry? inner).isSome then t else t.put inner .directory
    t.makeDirectories inner rest

/-- Writes a file, with the directories that its path goes through. A directory is not replaced. -/
def write (t : FileTree) (p : Path) (bytes : List UInt8) : FileTree :=
  let (t, place) := t.makeDirectories (t.start p) p.parts.dropLast
  match p.parts.getLast? with
  | none => t
  | some name =>
    let inner := place ++ [name]
    if name == ".." || ((t.entry? inner).map (·.isDirectory)).getD false then t
    else t.put inner (.file bytes)

/-- Deletes the file at a path; the directories around it stay. -/
def delete (t : FileTree) (p : Path) : FileTree :=
  match t.locate p with
  | .ok (.file ..) => { t with entries := t.entries.filter (·.1 != (t.resolve p).parts) }
  | _ => t

/-- A tree with nothing but the working directory and the directories around it. -/
def empty (working : List String) : FileTree :=
  { (({} : FileTree).makeDirectories [] working).1 with working := working }

/-- The tree of the files given, in a working directory that was empty before. -/
def ofFiles (files : List (Path × List UInt8)) (working : List String := ["tmp", "work"]) :
    FileTree :=
  files.foldl (fun t f => t.write f.1 f.2) (empty working)

/-! ### Wildcards for paths -/

/-- One component of a wildcard for paths. -/
inductive GlobStep where
  /-- The directory and all directories below it. -/
  | everywhere
  /-- The directory above. -/
  | up
  /-- The entry of a name. -/
  | named (name : String)
  /-- The entries whose names match. -/
  | wild (pieces : List WildPiece)
  /-- The directory itself. -/
  | here
  deriving DecidableEq, Repr

/-- Do two stars stand next to each other? -/
def hasDoubleStar : List Char → Bool
  | '*' :: '*' :: _ => true
  | _ :: cs => hasDoubleStar cs
  | [] => false

/-- The step for one component. -/
def GlobStep.ofName (name : String) : Except PathFault GlobStep :=
  let cs := name.toList
  if name == "**" then .ok .everywhere
  else if name == ".." then .ok .up
  else if hasDoubleStar cs then .error .mixedStars
  else if cs.any fun c => c == '*' || c == '?' || c == '[' then .ok (.wild (Wildcard.pieces cs))
  else .ok (.named name)

/-- The steps of a wildcard. A slash at the end asks for directories. -/
def globSteps (pattern : String) : Except PathFault (List GlobStep) := do
  let p := Path.ofText pattern
  if p.isAbsolute then .error .absolutePattern
  else
    let steps ← p.parts.mapM GlobStep.ofName
    return if pattern.toList.getLast? == some '/' then steps ++ [.here] else steps

/-- May the names in the directory at a place be listed? -/
def isListable (t : FileTree) (place : List String) : Bool :=
  match t.entry? place with
  | some (.directory listable _) => listable
  | _ => false

/-- The names in a directory, with what they stand for; none where they may not be listed. -/
def listing (t : FileTree) (place : List String) : List (String × FileEntry) :=
  if t.isListable place then
    t.entries.filterMap fun (q, e) =>
      match q.getLast? with
      | some name => if q.dropLast == place then some (name, e) else none
      | none => none
  else []

/-- Is an entry seen that names lead to from a directory? The directories before the last one have
to be searchable, and all have to be listable. -/
def isSeen (t : FileTree) (place : List String) : List String → Bool
  | [] => true
  | [_] => t.isListable place
  | name :: rest =>
    t.entry? place == some (.directory true true) && t.isSeen (place ++ [name]) rest

/-- The directories that are seen below a place, each by the components that lead to it. -/
def directoriesBelow (t : FileTree) (place : List String) : List (List String) :=
  t.entries.filterMap fun (q, e) =>
    let more := q.drop place.length
    if e.isDirectory && place.isPrefixOf q && q != place && t.isSeen place more then some more
    else none

/-- Where a path leads, with nothing found behind closed directories. -/
def locateOpen (t : FileTree) (p : Path) : Except PathFault Target :=
  match t.locate p with
  | .error (.permissionDenied _) => .ok .nothing
  | found => found

/-- The paths that steps lead to from a path. -/
def select (t : FileTree) : List GlobStep → Path → Except PathFault (List Path)
  | [], p => .ok [p]
  | .here :: _, p => .ok [p]
  | .up :: rest, p => t.select rest (p.child "..")
  | .named name :: rest, p => do
    match ← t.locateOpen (p.child name) with
    | .nothing => return []
    | .file .. => if rest.isEmpty then return [p.child name] else return []
    | .directory _ => t.select rest (p.child name)
  | .wild pieces :: rest, p => do
    match ← t.locateOpen p with
    | .directory place =>
      let found := (t.listing place).filter fun (name, e) =>
        (rest.isEmpty || e.isDirectory) && Wildcard.fits pieces name.toList
      return (← found.mapM fun f => t.select rest (p.child f.1)).flatten
    | _ => return []
  | .everywhere :: rest, p => do
    match ← t.locateOpen p with
    | .directory place =>
      let starts := p :: (t.directoriesBelow place).map fun more =>
        { p with parts := p.parts ++ more }
      return (← starts.mapM (t.select rest)).flatten.eraseDups
    | _ => return []

/-- Leaves one of several steps in a row that lead everywhere below. -/
def GlobStep.squeeze : List GlobStep → List GlobStep
  | .everywhere :: .everywhere :: rest => squeeze (.everywhere :: rest)
  | step :: rest => step :: squeeze rest
  | [] => []

/-- The files anywhere below a directory that a wildcard describes, in order. -/
def filesMatching (t : FileTree) (root : Path) (pattern : String) :
    Except PathFault (List Path) := do
  let steps ← globSteps pattern
  let found ← t.select (GlobStep.squeeze (.everywhere :: steps)) root
  let files ← found.filterM t.isFile
  return Path.sorted files

end FileTree

end TypeFacts
