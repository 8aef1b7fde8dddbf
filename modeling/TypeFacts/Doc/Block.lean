import TypeFacts.Json.Basic
import TypeFacts.Text.Basic

/-!
# Doc comments

A doc comment has a summary, a description and tags. A tag keeps its content as written, and beside
it what a tag reader found there.
-/

namespace TypeFacts

/-- A tag of a doc comment. -/
structure DocTag where
  name : String
  /-- The text behind the name, as written. -/
  content : String := ""
  /-- Did a tag reader understand the content? -/
  parsed : Bool := false
  /-- The type expression, as written. -/
  type : Option String := none
  /-- The name of the variable without the dollar sign. -/
  var : Option String := none
  description : String := ""
  variadic : Bool := false
  fileUpload : Bool := false
  /-- Further values that a tag reader found. -/
  attributes : List (String × Json) := []
  deriving Repr

/-- The parts of a doc comment. -/
structure DocBlock where
  summary : String := ""
  description : String := ""
  tags : List DocTag := []
  deriving Repr

namespace DocTag

/-- The stored form of a tag. -/
def toJson (t : DocTag) : Json :=
  .obj [("name", .str t.name), ("content", .str t.content), ("parsed", .bool t.parsed),
    ("type", .ofText? t.type), ("variable", .ofText? t.var),
    ("description", .str t.description), ("variadic", .bool t.variadic),
    ("is_file_upload", .bool t.fileUpload), ("attributes", .obj t.attributes)]

end DocTag

namespace DocBlock

/-- The stored form of a doc comment. -/
def toJson (b : DocBlock) : Json :=
  .obj [("summary", .str b.summary), ("description", .str b.description),
    ("tags", .arr (b.tags.map DocTag.toJson))]

/-- The tags of a name, in order. -/
def tagsNamed (b : DocBlock) (name : String) : List DocTag :=
  b.tags.filter (·.name == name)

/-- The first tag of a name. -/
def firstTag? (b : DocBlock) (name : String) : Option DocTag :=
  b.tags.find? (·.name == name)

/-- Is there a tag of the name? -/
def hasTag (b : DocBlock) (name : String) : Bool :=
  (b.firstTag? name).isSome

/-- The first tag that describes the parameter; dollar signs in front of the name do not count. -/
def paramTag? (b : DocBlock) (parameter : String) : Option DocTag :=
  let name := String.ofList (parameter.toList.dropWhile (· == '$'))
  b.tags.find? fun t => t.name == "param" && t.var == some name

end DocBlock

end TypeFacts
