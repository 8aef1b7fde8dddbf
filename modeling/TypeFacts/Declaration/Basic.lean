import TypeFacts.Table
import TypeFacts.Text.Case
import TypeFacts.Ty.Basic

/-!
# Declarations

The records that an analysis gives: parameters, functions, methods, properties, constants, classes,
and all that a file declares together with the faults found in it. A type that no source knows is
left out, which is not the same as the type of anything.
-/

namespace TypeFacts

/-- Who may use a member of a class. -/
inductive Visibility where
  | pub
  | prot
  | priv
  deriving DecidableEq, Repr, Inhabited

namespace Visibility

/-- The word for a visibility. -/
def word : Visibility → String
  | pub => "public"
  | prot => "protected"
  | priv => "private"

/-- The visibility that a word names. -/
def ofWord? : String → Option Visibility
  | "public" => some pub
  | "protected" => some prot
  | "private" => some priv
  | _ => none

/-- The narrowest visibility among the modifiers; without any a member is public. -/
def ofModifiers (modifiers : List String) : Visibility :=
  if modifiers.contains "private" then priv
  else if modifiers.contains "protected" then prot
  else pub

@[simp] theorem ofWord?_word (v : Visibility) : ofWord? v.word = some v := by
  cases v <;> rfl

end Visibility

/-- The kinds of class-like declarations. -/
inductive ClassKind where
  | cls
  | interface
  | trait
  | enum
  deriving DecidableEq, Repr, Inhabited

namespace ClassKind

/-- The word for a kind. -/
def word : ClassKind → String
  | cls => "class"
  | interface => "interface"
  | trait => "trait"
  | enum => "enum"

/-- The kind that a word names. -/
def ofWord? : String → Option ClassKind
  | "class" => some cls
  | "interface" => some interface
  | "trait" => some trait
  | "enum" => some enum
  | _ => none

/-- The modifier that a kind other than a plain class goes with. -/
def modifier : ClassKind → List String
  | cls => []
  | k => [k.word]

@[simp] theorem ofWord?_word (k : ClassKind) : ofWord? k.word = some k := by
  cases k <;> rfl

end ClassKind

/-- A parameter of a function or method. -/
structure ParamDecl where
  name : String
  position : Nat
  type : Option Ty := none
  optional : Bool := false
  variadic : Bool := false
  byReference : Bool := false
  /-- The type of the default value. -/
  defaultValue : Option Ty := none
  /-- The text of the tag that describes the parameter. -/
  description : String := ""
  /-- The visibility of the property that a constructor makes of the parameter. -/
  promoted : Option Visibility := none
  deriving DecidableEq, Repr

/-- A function. -/
structure FunctionDecl where
  name : String
  parameters : List ParamDecl := []
  returnType : Option Ty := none
  docComment : Option String := none
  /-- The documented thrown types. -/
  throws : List String := []
  file : Option String := none
  line : Option Int := none
  deriving DecidableEq, Repr

/-- A method of a class. -/
structure MethodDecl extends FunctionDecl where
  /-- The full name of the class. -/
  className : String
  visibility : Visibility := .pub
  modifiers : List String := []
  deriving DecidableEq, Repr

/-- A property of a class. -/
structure PropertyDecl where
  name : String
  visibility : Visibility := .pub
  isStatic : Bool := false
  readonly : Bool := false
  type : Option Ty := none
  /-- The type of the default value. -/
  defaultValue : Option Ty := none
  docComment : Option String := none
  deriving DecidableEq, Repr

/-- A constant of a class. -/
structure ConstantDecl where
  name : String
  visibility : Visibility := .pub
  type : Option Ty := none
  /-- The value as written in the source, or as a literal. -/
  value : Option String := none
  deriving DecidableEq, Repr

/-- A class, interface, trait or enum. -/
structure ClassDecl where
  name : String
  shortName : String
  ns : String := ""
  kind : ClassKind := .cls
  modifiers : List String := []
  parent : Option String := none
  interfaces : List String := []
  traits : List String := []
  methods : Table MethodDecl := .empty
  properties : Table PropertyDecl := .empty
  constants : Table ConstantDecl := .empty
  docComment : Option String := none
  file : Option String := none
  line : Option Int := none
  deriving DecidableEq, Repr

/-- A fault in the syntax of a file. Lines and columns are counted from one. -/
structure SourceFault where
  message : String
  line : Nat
  column : Nat
  deriving DecidableEq, Repr

/-- All that a file declares. -/
structure FileReport where
  file : String
  ns : String := ""
  classes : Table ClassDecl := .empty
  functions : Table FunctionDecl := .empty
  errors : List SourceFault := []
  deriving DecidableEq, Repr

namespace FunctionDecl

/-- The parameter of a name. -/
def parameter? (f : FunctionDecl) (name : String) : Option ParamDecl :=
  f.parameters.find? (·.name == name)

end FunctionDecl

namespace MethodDecl

/-- Is the method called without an object? -/
def isStatic (m : MethodDecl) : Bool := m.modifiers.contains "static"

/-- Is the body of the method left to a subclass? -/
def isAbstract (m : MethodDecl) : Bool := m.modifiers.contains "abstract"

/-- Is the method closed to overriding? -/
def isFinal (m : MethodDecl) : Bool := m.modifiers.contains "final"

/-- Does the name, in any letter case, make the method the constructor? -/
def isConstructor (m : MethodDecl) : Bool := Text.asciiLower m.name == "__construct"

end MethodDecl

namespace ClassDecl

/-- Is the class left to subclasses? -/
def isAbstract (c : ClassDecl) : Bool := c.modifiers.contains "abstract"

/-- Is the class closed to subclasses? -/
def isFinal (c : ClassDecl) : Bool := c.modifiers.contains "final"

/-- Is the declaration an interface? -/
def isInterface (c : ClassDecl) : Bool := c.kind == .interface

/-- Is the declaration a trait? -/
def isTrait (c : ClassDecl) : Bool := c.kind == .trait

end ClassDecl

namespace FileReport

/-- Were faults found? -/
def hasErrors (r : FileReport) : Bool := !r.errors.isEmpty

end FileReport

end TypeFacts
