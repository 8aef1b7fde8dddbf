import TypeFacts.Files.Encoding
import TypeFacts.Files.FileTree
import TypeFacts.Snapshot.Host
import TypeFacts.Text.Literal
import TypeFacts.Ty.Basic

/-!
# Failures

A trouble is what goes wrong underneath an analysis. A failure is how it is reported for a target:
with a message for the user, and the kind of the trouble behind it.
-/

namespace TypeFacts

/-- What goes wrong underneath an analysis. -/
inductive Trouble where
  | fileMissing (path : String)
  | directoryMissing (path : String)
  /-- A target that is neither a file nor loaded. -/
  | targetMissing (target : String)
  /-- A class that neither source nor reflection knows. -/
  | entityMissing (name : String)
  | host (fault : Host.Fault)
  | badType (fault : Ty.Fault)
  | badPath (fault : PathFault)
  | unknownEncoding (name : String)
  /-- The name of an encoding has the character that ends texts for the operating system. -/
  | nullInEncoding
  | undecodable (failure : Encoding.Failure)
  /-- A further encoding refuses the bytes. -/
  | refused (refusal : Encoding.Refusal)
  deriving DecidableEq, Repr

namespace PathFault

/-- The wording of a fault of a path. -/
def message : PathFault → String
  | nameTooLong path => "[Errno 36] File name too long: " ++ Text.literal path
  | permissionDenied path => "[Errno 13] Permission denied: " ++ Text.literal path
  | nullCharacter => "embedded null byte"
  | absolutePattern => "Non-relative patterns are unsupported"
  | mixedStars => "Invalid pattern: '**' can only be an entire path component"

/-- The word for the kind of a fault of a path. -/
def kind : PathFault → String
  | nameTooLong _ => "OSError"
  | permissionDenied _ => "PermissionError"
  | nullCharacter => "ValueError"
  | absolutePattern => "NotImplementedError"
  | mixedStars => "ValueError"

end PathFault

/-- What is taken from elsewhere: the encodings that are not described here, by their names, and the
wording of a faulty type. -/
structure Library where
  codec? : String → Option Encoding.Codec := fun _ => none
  typeReport : Ty.Fault → String := Ty.Fault.message

namespace Trouble

/-- The wording of a trouble. -/
def message (t : Trouble) (library : Library := {}) : String :=
  match t with
  | fileMissing path => "File not found: " ++ path
  | directoryMissing path => "Directory not found: " ++ path
  | targetMissing target => "Target not found: " ++ target
  | entityMissing name => "Entity not found: " ++ name
  | host (.entityNotLoaded name) => "Entity not loaded: " ++ name
  | host (.functionNotLoaded name) => "Function not loaded: " ++ name
  | host (.badType fault) => library.typeReport fault
  | badType fault => library.typeReport fault
  | badPath fault => fault.message
  | unknownEncoding name => "unknown encoding: " ++ name
  | nullInEncoding => "embedded null character"
  | undecodable failure => failure.message
  | refused refusal => refusal.message

/-- The word for the kind of a trouble. -/
def kind : Trouble → String
  | fileMissing _ | directoryMissing _ | targetMissing _ | entityMissing _ => "NotFoundError"
  | host (.entityNotLoaded _) | host (.functionNotLoaded _) => "NotFoundError"
  | host (.badType _) | badType _ => "ValidationError"
  | badPath fault => fault.kind
  | unknownEncoding _ => "LookupError"
  | nullInEncoding => "ValueError"
  | undecodable _ => "UnicodeDecodeError"
  | refused refusal => refusal.kind

/-- Is something missing that was asked for? -/
def isMissing : Trouble → Bool
  | fileMissing _ | directoryMissing _ | targetMissing _ | entityMissing _ => true
  | host (.entityNotLoaded _) | host (.functionNotLoaded _) => true
  | _ => false

/-- Could the files not be reached? -/
def isUnreachable : Trouble → Bool
  | badPath (.nameTooLong _) | badPath (.permissionDenied _) => true
  | _ => false

end Trouble

/-- A failed analysis of a target. -/
structure Failure where
  message : String
  details : Option String := none
  /-- The word for the kind of what lies behind. -/
  cause : Option String := none
  deriving DecidableEq, Repr

namespace Failure

/-- The source of a file cannot be read. -/
def unreadable (file reason : String) (cause : Option String) : Failure where
  message := "Failed to parse AST for file '" ++ file ++ "': " ++ reason
  cause := cause

/-- Reflection gives no answer about a name. -/
def withoutReflection (name reason : String) (cause : Option String) : Failure where
  message := "Failed to analyze '" ++ name ++ "' via reflection: " ++ reason
  cause := cause

/-- There is no such target. -/
def targetNotFound (target : String) (cause : Option String) : Failure where
  message := "Target not found: " ++ target
  cause := cause

/-- Something else went wrong, of the given kind and with the given message. -/
def wrapped (target kind message : String) : Failure where
  message := "Failed to analyze '" ++ target ++ "': " ++ message
  details := some kind
  cause := some kind

/-- The failure that a trouble makes of the search for a target. -/
def notFound (target : String) (t : Trouble) : Failure :=
  targetNotFound target (some t.kind)

/-- The failure that a trouble makes of the analysis of a class or function. -/
def ofTrouble (target : String) (library : Library) (t : Trouble) : Failure :=
  if t.isMissing then notFound target t
  else wrapped target t.kind (t.message library)

/-- The failure that a trouble makes of the analysis of a file. -/
def ofFileTrouble (file : String) (library : Library) (t : Trouble) : Failure :=
  if t.isUnreachable then unreadable file (t.message library) (some t.kind)
  else ofTrouble file library t

end Failure

/-- How an analysis ends without a result: by a failure, or by a trouble that nothing deals with. -/
inductive Stop where
  | failed (failure : Failure)
  | trouble (trouble : Trouble)
  deriving DecidableEq, Repr

end TypeFacts
