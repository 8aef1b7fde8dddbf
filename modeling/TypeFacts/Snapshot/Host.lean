import TypeFacts.Files.Path
import TypeFacts.Memo
import TypeFacts.Snapshot.Convert

/-!
# Reflection hosts

A host answers questions about the classes and functions that are loaded. `Host.none` knows nothing;
`Host.ofSnapshot` knows what a snapshot holds. Names are looked up without backslashes in front and
in any letter case, and of several entries with one name the last counts. Declarations are kept in a
memo once they are made.
-/

namespace TypeFacts

/-- The form of a name by which it is looked up. -/
def foldedName (name : String) : String :=
  Text.lower (Text.withoutBackslashes name)

/-- A host of reflection data with the declarations made so far. -/
structure Host where
  /-- The loaded classes and functions by folded name, or nothing without reflection. -/
  loaded : Option (Table ReflectedClass × Table ReflectedFunction)
  classMemo : Memo String ClassDecl := .empty
  functionMemo : Memo String FunctionDecl := .empty

namespace Host

/-- Why a host has no answer. -/
inductive Fault where
  | entityNotLoaded (name : String)
  | functionNotLoaded (name : String)
  /-- A type in the reflection data has no descriptor. -/
  | badType (fault : Ty.Fault)
  deriving DecidableEq, Repr

/-- The host without reflection. -/
def none : Host := { loaded := Option.none }

/-- The host of a snapshot. -/
def ofSnapshot (s : Snapshot) : Host :=
  { loaded := some (Table.ofList (s.classes.map fun c => (foldedName c.name, c)),
      Table.ofList (s.functions.map fun f => (foldedName f.name, f))) }

/-- Does the host have reflection data at all? -/
def hasReflection (h : Host) : Bool := h.loaded.isSome

/-- The loaded class of a name. -/
def class? (h : Host) (name : String) : Option ReflectedClass :=
  h.loaded.bind fun l => l.1.get? (foldedName name)

/-- The loaded function of a name. -/
def function? (h : Host) (name : String) : Option ReflectedFunction :=
  h.loaded.bind fun l => l.2.get? (foldedName name)

/-- Is a class of the name loaded? -/
def isLoaded (h : Host) (name : String) : Bool := (h.class? name).isSome

/-- Is a function of the name loaded? -/
def isFunctionLoaded (h : Host) (name : String) : Bool := (h.function? name).isSome

/-- Makes the declaration of a loaded class. -/
def makeClass (h : Host) (name : String) : Except Fault ClassDecl :=
  match h.class? name with
  | .none => .error (.entityNotLoaded name)
  | some c => c.toDecl.mapError .badType

/-- Makes the declaration of a loaded function. -/
def makeFunction (h : Host) (name : String) : Except Fault FunctionDecl :=
  match h.function? name with
  | .none => .error (.functionNotLoaded name)
  | some f => f.toDecl.mapError .badType

/-- The declaration of a loaded class. -/
def entity (h : Host) (name : String) : Except Fault (Stored ClassDecl) × Host :=
  let (decl, memo) := h.classMemo.findOrMake (foldedName name) fun _ => h.makeClass name
  (decl, { h with classMemo := memo })

/-- The declaration of a loaded function. -/
def function (h : Host) (name : String) : Except Fault (Stored FunctionDecl) × Host :=
  let (decl, memo) := h.functionMemo.findOrMake (foldedName name) fun _ => h.makeFunction name
  (decl, { h with functionMemo := memo })

/-- The file that declares a loaded class or function, where it is known. -/
def sourceFile (h : Host) (name : String) : Option Path :=
  let file := match h.class? name with
    | some c => c.file
    | .none => (h.function? name).bind (·.file)
  (Text.nonEmpty? file).map Path.ofText

/-- Forgets the declarations made so far. -/
def clear (h : Host) : Host :=
  { h with classMemo := h.classMemo.clear, functionMemo := h.functionMemo.clear }

end Host

end TypeFacts
