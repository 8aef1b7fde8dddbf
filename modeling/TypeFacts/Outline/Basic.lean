import TypeFacts.Declaration.Basic
import TypeFacts.Scope

/-!
# Outlines

What the source of a file says on its own, before doc comments and reflection are taken into
account: declared types, types of default values, modifiers and the doc comments as they stand.
-/

namespace TypeFacts

/-- A parameter as declared. -/
structure ParamOutline where
  name : String
  position : Nat
  declaredType : Option Ty := none
  defaultType : Option Ty := none
  optional : Bool := false
  variadic : Bool := false
  byReference : Bool := false
  /-- The visibility of the property that the constructor makes of the parameter. -/
  promoted : Option Visibility := none
  promotedReadonly : Bool := false
  deriving DecidableEq, Repr

/-- A function or method as declared. -/
structure FunctionOutline where
  name : String
  /-- The name with the namespace, or with the class, in front. -/
  qualifiedName : String
  parameters : List ParamOutline := []
  declaredReturn : Option Ty := none
  docComment : Option String := none
  line : Option Nat := none
  visibility : Visibility := .pub
  modifiers : List String := []
  scope : Scope := {}
  deriving DecidableEq, Repr

/-- A property as declared. -/
structure PropertyOutline where
  name : String
  visibility : Visibility := .pub
  isStatic : Bool := false
  readonly : Bool := false
  declaredType : Option Ty := none
  defaultType : Option Ty := none
  docComment : Option String := none
  deriving DecidableEq, Repr

/-- A constant as declared. -/
structure ConstantOutline where
  name : String
  visibility : Visibility := .pub
  valueType : Option Ty := none
  value : Option String := none
  deriving DecidableEq, Repr

/-- A class, interface, trait or enum as declared. -/
structure ClassOutline where
  name : String
  shortName : String
  ns : String
  kind : ClassKind
  modifiers : List String := []
  parent : Option String := none
  interfaces : List String := []
  traits : List String := []
  methods : List FunctionOutline := []
  properties : List PropertyOutline := []
  constants : List ConstantOutline := []
  docComment : Option String := none
  line : Option Nat := none
  scope : Scope := {}
  deriving DecidableEq, Repr

/-- All that a file declares. -/
structure FileOutline where
  /-- The first namespace of the file and the imports outside of all blocks. -/
  scope : Scope
  classes : List ClassOutline := []
  functions : List FunctionOutline := []
  deriving DecidableEq, Repr

namespace FileOutline

/-- The first class of a name, in any letter case and with any number of backslashes in front. -/
def findClass? (f : FileOutline) (name : String) : Option ClassOutline :=
  let wanted := Text.lower (Text.withoutBackslashes name)
  f.classes.find? fun c => Text.lower c.name == wanted

end FileOutline

end TypeFacts
