import TypeFacts.Failure
import TypeFacts.Json.Reader
import TypeFacts.Snapshot.Basic

/-!
# Snapshot files

A snapshot is stored as a JSON text in UTF-8. Line ends of all sorts are read as line feeds.
-/

namespace TypeFacts

/-- Why a snapshot cannot be taken. -/
inductive SnapshotFault where
  /-- There is no file at the path. -/
  | missing (path : String)
  /-- The path cannot be followed. -/
  | badPath (fault : PathFault)
  | undecodable (failure : Encoding.Failure)
  /-- The file at the path is no JSON text. -/
  | unreadable (path : String) (reason : Json.Malformed)
  /-- The file has a whole number with more digits than are read. -/
  | longNumeral (digits : Nat)
  | invalid (complaints : List Complaint)

namespace SnapshotFault

/-- The wording of a fault. -/
def message : SnapshotFault → String
  | missing path => "Snapshot file not found: " ++ path
  | badPath fault => fault.message
  | undecodable failure => failure.message
  | unreadable path _ => "Invalid JSON in " ++ path
  | longNumeral digits => Number.digitLimitMessage digits
  | invalid _ => "Invalid reflection snapshot"

/-- What else there is to say. -/
def details? : SnapshotFault → Option String
  | unreadable _ reason => some reason.message
  | invalid complaints => some (Complaint.messages complaints)
  | _ => none

end SnapshotFault

namespace Snapshot

/-- Takes a snapshot from a JSON value. -/
def ofJson (j : Json) (limits : Limits := {}) : Except SnapshotFault Snapshot :=
  (Checked.snapshot limits j).toExcept.mapError .invalid

/-- Takes a snapshot from a file. -/
def ofFile (files : FileTree) (path : String) (limits : Limits := {}) :
    Except SnapshotFault Snapshot := do
  let p := Path.ofText path
  match ← (files.file? p).mapError .badPath with
  | none => .error (.missing p.text)
  | some bytes =>
    let cs ← (Encoding.decode .utf8 bytes).mapError .undecodable
    match Json.read (String.ofList (Text.unifyLineEnds cs)) with
    | .error (.malformed reason) => .error (.unreadable p.text reason)
    | .error (.longNumeral digits) => .error (.longNumeral digits)
    | .ok j => ofJson j limits

end Snapshot

end TypeFacts
