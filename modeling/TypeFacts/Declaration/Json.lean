import TypeFacts.Declaration.Basic
import TypeFacts.Json.Text
import TypeFacts.Json.Reader
import TypeFacts.Ty.Json

/-!
# Declarations as JSON

Every record has a stored form, an object with all its fields in a fixed order, and a check that
reads it back: fields that are left out have their defaults, further fields do not matter, and
everything that is wrong is reported.

`ClassDecl.ofText` and `FileReport.ofText` read a record from JSON text, `ClassDecl.text` and
`FileReport.text` write it. Neither goes beyond the limits on nested types or on the digits of whole
numbers.
-/

namespace TypeFacts

/-- The text of a fault with its place. -/
def SourceFault.text (e : SourceFault) : String :=
  e.message ++ " on line " ++ Number.natText e.line ++ ", column " ++ Number.natText e.column

/-- The stored form of a table. -/
def Table.toJson {α : Type} (f : α → Json) (t : Table α) : Json :=
  .obj (t.entries.map fun e => (e.1, f e.2))

/-! ### Types of records -/

/-- The types of a parameter. -/
def ParamDecl.types (p : ParamDecl) : List Ty :=
  p.type.toList ++ p.defaultValue.toList

/-- The types of a function. -/
def FunctionDecl.types (f : FunctionDecl) : List Ty :=
  f.parameters.flatMap ParamDecl.types ++ f.returnType.toList

/-- The types of a property. -/
def PropertyDecl.types (p : PropertyDecl) : List Ty :=
  p.type.toList ++ p.defaultValue.toList

/-- The types of a class. -/
def ClassDecl.types (c : ClassDecl) : List Ty :=
  c.methods.values.flatMap (·.toFunctionDecl.types) ++
    c.properties.values.flatMap PropertyDecl.types ++
    c.constants.values.flatMap (·.type.toList)

/-- The types of all that a file declares. -/
def FileReport.types (r : FileReport) : List Ty :=
  r.classes.values.flatMap ClassDecl.types ++ r.functions.values.flatMap FunctionDecl.types

/-! ### Writing -/

/-- Why a record cannot be written. -/
inductive WriteFault where
  /-- A type stands too deep within others. -/
  | tooDeep
  /-- A whole number has more digits than are written. -/
  | longNumeral
  deriving DecidableEq, Repr

/-- The wording of a fault. -/
def WriteFault.message (_ : WriteFault) : String :=
  "Failed to serialize analysis result"

/-- The text of a record with the given types. -/
def writeRecord (limits : Limits) (types : List Ty) (j : Json) : Except WriteFault String :=
  if !types.all fun t => (t.chains []).all limits.writes then .error .tooDeep
  else if j.hasLongNumeral then .error .longNumeral
  else .ok (j.text .indented)

namespace ParamDecl

/-- The stored form of a parameter. -/
def toJson (p : ParamDecl) : Json :=
  .obj [("name", .str p.name), ("position", .int p.position), ("type", Ty.toJson? p.type),
    ("optional", .bool p.optional), ("variadic", .bool p.variadic),
    ("by_reference", .bool p.byReference), ("default_value", Ty.toJson? p.defaultValue),
    ("description", .str p.description), ("promoted", .ofText? (p.promoted.map (·.word)))]

end ParamDecl

namespace FunctionDecl

/-- The fields of the stored form of a function. -/
def jsonFields (f : FunctionDecl) : List (String × Json) :=
  [("name", .str f.name), ("parameters", .arr (f.parameters.map ParamDecl.toJson)),
    ("return_type", Ty.toJson? f.returnType), ("doc_comment", .ofText? f.docComment),
    ("throws", .ofTexts f.throws), ("file", .ofText? f.file), ("line", .ofInt? f.line)]

/-- The stored form of a function. -/
def toJson (f : FunctionDecl) : Json :=
  .obj f.jsonFields

end FunctionDecl

namespace MethodDecl

/-- The stored form of a method. -/
def toJson (m : MethodDecl) : Json :=
  .obj (m.toFunctionDecl.jsonFields ++ [("class_name", .str m.className),
    ("visibility", .str m.visibility.word), ("modifiers", .ofTexts m.modifiers)])

end MethodDecl

namespace PropertyDecl

/-- The stored form of a property. -/
def toJson (p : PropertyDecl) : Json :=
  .obj [("name", .str p.name), ("visibility", .str p.visibility.word), ("static", .bool p.isStatic),
    ("readonly", .bool p.readonly), ("type", Ty.toJson? p.type),
    ("default_value", Ty.toJson? p.defaultValue), ("doc_comment", .ofText? p.docComment)]

end PropertyDecl

namespace ConstantDecl

/-- The stored form of a constant. -/
def toJson (c : ConstantDecl) : Json :=
  .obj [("name", .str c.name), ("visibility", .str c.visibility.word), ("type", Ty.toJson? c.type),
    ("value", .ofText? c.value)]

end ConstantDecl

namespace ClassDecl

/-- The stored form of a class. -/
def toJson (c : ClassDecl) : Json :=
  .obj [("name", .str c.name), ("short_name", .str c.shortName), ("namespace", .str c.ns),
    ("kind", .str c.kind.word), ("modifiers", .ofTexts c.modifiers), ("parent", .ofText? c.parent),
    ("interfaces", .ofTexts c.interfaces), ("traits", .ofTexts c.traits),
    ("methods", c.methods.toJson MethodDecl.toJson),
    ("properties", c.properties.toJson PropertyDecl.toJson),
    ("constants", c.constants.toJson ConstantDecl.toJson), ("doc_comment", .ofText? c.docComment),
    ("file", .ofText? c.file), ("line", .ofInt? c.line)]

/-- The text of a class. -/
def text (c : ClassDecl) (limits : Limits := {}) : Except WriteFault String :=
  writeRecord limits c.types c.toJson

end ClassDecl

namespace SourceFault

/-- The stored form of a fault. -/
def toJson (e : SourceFault) : Json :=
  .obj [("message", .str e.message), ("line", .int e.line), ("column", .int e.column)]

end SourceFault

namespace FileReport

/-- The stored form of all that a file declares. -/
def toJson (r : FileReport) : Json :=
  .obj [("file", .str r.file), ("namespace", .str r.ns),
    ("classes", r.classes.toJson ClassDecl.toJson),
    ("functions", r.functions.toJson FunctionDecl.toJson),
    ("errors", .arr (r.errors.map SourceFault.toJson))]

/-- The text of all that a file declares. -/
def text (r : FileReport) (limits : Limits := {}) : Except WriteFault String :=
  writeRecord limits r.types r.toJson

end FileReport

/-! ### Reading -/

namespace Checked

/-- One of the words for a visibility. -/
def visibility : Json → Checked Visibility :=
  word ["public", "protected", "private"] Visibility.ofWord?

/-- One of the words for a kind of class. -/
def classKind : Json → Checked ClassKind :=
  word ["class", "interface", "trait", "enum"] ClassKind.ofWord?

/-- A table of values of the given sort. -/
def table {α : Type} (check : Json → Checked α) (j : Json) : Checked (Table α) :=
  map Table.ofList (entries check j)

section Records

variable (limits : Limits)

/-- Reads a descriptor that may be left out. -/
def type? : Json → Checked (Option Ty) :=
  nullable fun j => Ty.check j limits

/-- Reads a parameter. -/
def paramDecl : Json → Checked ParamDecl :=
  record "ParameterDeclaration" fun fs =>
    ParamDecl.mk <$> required "name" text fs <*> required "position" (intFrom 0) fs <*>
      optional "type" none (type? limits) fs <*> optional "optional" false bool fs <*>
      optional "variadic" false bool fs <*> optional "by_reference" false bool fs <*>
      optional "default_value" none (type? limits) fs <*>
      optional "description" "" text fs <*> optional "promoted" none (nullable visibility) fs

/-- Reads the fields of a function. -/
def functionFields (fs : List (String × Json)) : Checked FunctionDecl :=
  FunctionDecl.mk <$> required "name" text fs <*>
    optional "parameters" [] (list (paramDecl limits)) fs <*>
    optional "return_type" none (type? limits) fs <*>
    optional "doc_comment" none (nullable text) fs <*> optional "throws" [] (list text) fs <*>
    optional "file" none (nullable text) fs <*> optional "line" none (nullable int) fs

/-- Reads a function. -/
def functionDecl : Json → Checked FunctionDecl :=
  record "FunctionDeclaration" (functionFields limits)

/-- Reads a method. -/
def methodDecl : Json → Checked MethodDecl :=
  record "MethodDeclaration" fun fs =>
    MethodDecl.mk <$> functionFields limits fs <*> required "class_name" text fs <*>
      optional "visibility" .pub visibility fs <*> optional "modifiers" [] (list text) fs

/-- Reads a property. -/
def propertyDecl : Json → Checked PropertyDecl :=
  record "PropertyDeclaration" fun fs =>
    PropertyDecl.mk <$> required "name" text fs <*> optional "visibility" .pub visibility fs <*>
      optional "static" false bool fs <*> optional "readonly" false bool fs <*>
      optional "type" none (type? limits) fs <*>
      optional "default_value" none (type? limits) fs <*>
      optional "doc_comment" none (nullable text) fs

/-- Reads a constant. -/
def constantDecl : Json → Checked ConstantDecl :=
  record "ConstantDeclaration" fun fs =>
    ConstantDecl.mk <$> required "name" text fs <*> optional "visibility" .pub visibility fs <*>
      optional "type" none (type? limits) fs <*> optional "value" none (nullable text) fs

/-- Reads a class. -/
def classDecl : Json → Checked ClassDecl :=
  record "ClassDeclaration" fun fs =>
    ClassDecl.mk <$> required "name" text fs <*> required "short_name" text fs <*>
      optional "namespace" "" text fs <*> optional "kind" .cls classKind fs <*>
      optional "modifiers" [] (list text) fs <*> optional "parent" none (nullable text) fs <*>
      optional "interfaces" [] (list text) fs <*> optional "traits" [] (list text) fs <*>
      optional "methods" .empty (table (methodDecl limits)) fs <*>
      optional "properties" .empty (table (propertyDecl limits)) fs <*>
      optional "constants" .empty (table (constantDecl limits)) fs <*>
      optional "doc_comment" none (nullable text) fs <*> optional "file" none (nullable text) fs <*>
      optional "line" none (nullable int) fs

/-- Reads a fault. -/
def sourceFault : Json → Checked SourceFault :=
  record "ParseError" fun fs =>
    SourceFault.mk <$> required "message" text fs <*> required "line" (intFrom 1) fs <*>
      required "column" (intFrom 1) fs

/-- Reads all that a file declares. -/
def fileReport : Json → Checked FileReport :=
  record "FileAnalysis" fun fs =>
    FileReport.mk <$> required "file" text fs <*> optional "namespace" "" text fs <*>
      optional "classes" .empty (table (classDecl limits)) fs <*>
      optional "functions" .empty (table (functionDecl limits)) fs <*>
      optional "errors" [] (list sourceFault) fs

end Records

end Checked

/-! ### Records from text -/

/-- Why a text holds no record. -/
inductive RecordFault where
  /-- The text is no JSON. -/
  | unreadable (reason : Json.Malformed)
  /-- The text has a whole number with more digits than are read. -/
  | longNumeral (digits : Nat)
  /-- The text is JSON, but not a record of the given kind. -/
  | invalid (kind : String) (complaints : List Complaint)
  deriving DecidableEq, Repr

namespace RecordFault

/-- The wording of a fault. -/
def message : RecordFault → String
  | unreadable _ => "Invalid JSON format"
  | longNumeral digits => Number.digitLimitMessage digits
  | invalid kind _ => kind ++ " validation failed"

/-- Where the fault is and what it is about. -/
def details? : RecordFault → Option String
  | unreadable m =>
    some ("Line " ++ Number.natText m.line ++ ", column " ++ Number.natText m.column ++ ": " ++
      m.trouble.message)
  | longNumeral _ => none
  | invalid _ cs => some (Complaint.messages cs)

end RecordFault

/-- Reads a record of the given kind from text. -/
def recordOfText {α : Type} (kind : String) (check : Json → Checked α) (text : String) :
    Except RecordFault α :=
  match Json.read text with
  | .error (.malformed m) => .error (.unreadable m)
  | .error (.longNumeral digits) => .error (.longNumeral digits)
  | .ok j => (check j).toExcept.mapError (.invalid kind)

/-- Reads a class from text. -/
def ClassDecl.ofText (text : String) (limits : Limits := {}) : Except RecordFault ClassDecl :=
  recordOfText "ClassDeclaration" (Checked.classDecl limits) text

/-- Reads all that a file declares from text. -/
def FileReport.ofText (text : String) (limits : Limits := {}) : Except RecordFault FileReport :=
  recordOfText "FileAnalysis" (Checked.fileReport limits) text

end TypeFacts
