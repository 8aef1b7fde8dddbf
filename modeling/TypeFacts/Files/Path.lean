import TypeFacts.Text.Basic

/-!
# Paths

A path is a root, which a relative path does not have, and a list of components. Components that
say nothing (empty ones and single dots) are left out when a path is read.

A place is a list of names from the root of all files on. Without links, the place that a path
leads to is known from the path and the place where it begins (`Path.settle`).
-/

namespace TypeFacts

/-- A path of files and directories. -/
structure Path where
  /-- The slashes in front: none, one, or exactly two. -/
  root : String
  /-- The components; no one is empty or a single dot. -/
  parts : List String
  deriving DecidableEq, Repr, Inhabited

namespace Path

/-- The components of a text that say something. -/
def partsOf (cs : List Char) : List String :=
  ((Text.splitAt (· == '/') cs).map String.ofList).filter fun p => p != "" && p != "."

/-- The path that a text names. -/
def ofText (s : String) : Path :=
  let cs := s.toList
  let root := match cs with
    | '/' :: '/' :: '/' :: _ => "/"
    | '/' :: '/' :: _ => "//"
    | '/' :: _ => "/"
    | _ => ""
  ⟨root, partsOf cs⟩

/-- The text of a path; the path without components is a dot. -/
def text (p : Path) : String :=
  if p.root.isEmpty && p.parts.isEmpty then "." else p.root ++ Text.joined "/" p.parts

/-- A path with one more component. -/
def child (p : Path) (name : String) : Path :=
  { p with parts := p.parts ++ [name] }

/-- Does the path begin at the root of all files? -/
def isAbsolute (p : Path) : Bool :=
  !p.root.isEmpty

/-- The place that one more component leads to. Above the root there is only the root. -/
def enter (place : List String) (name : String) : List String :=
  if name == ".." then place.dropLast else if name == "." then place else place ++ [name]

/-- The place that components lead to from a place, wherever there are files. -/
def settle (place parts : List String) : List String :=
  parts.foldl enter place

/-- The components that are gone through; the path without any is the dot. -/
def steps (p : Path) : List String :=
  if p.root.isEmpty && p.parts.isEmpty then ["."] else p.parts

/-- Does the path have the character of code zero, so that no file can have it? -/
def hasNull (p : Path) : Bool :=
  p.parts.any fun part => part.toList.any fun c => c.toNat == 0

/-- Are the components of the one list before those of the other, compared one by one? -/
def partsLt : List String → List String → Bool
  | [], [] => false
  | [], _ :: _ => true
  | _ :: _, [] => false
  | a :: as, b :: bs => if a = b then partsLt as bs else a < b

/-- Puts a path in front of the first path of the list that is after it. -/
def insertSorted (p : Path) : List Path → List Path
  | [] => [p]
  | q :: qs => if partsLt q.parts p.parts then q :: insertSorted p qs else p :: q :: qs

/-- Paths in increasing order of their components. -/
def sorted (paths : List Path) : List Path :=
  paths.foldr insertSorted []

end Path

end TypeFacts
