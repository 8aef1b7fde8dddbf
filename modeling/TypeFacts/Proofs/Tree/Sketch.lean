import TypeFacts.Tree.SourceReader

/-!
# Sources with their trees

A sketch is a piece of source text together with its tree: tokens and leaves in order, the blanks
between them, and the rules around them. From a list of sketches both the source and the tree that
the grammar gives for it can be read off, so that examples of sources need no byte ranges.
-/

namespace TypeFacts

/-- A piece of a source with its tree. -/
inductive Sketch where
  /-- Text that no node covers by itself. -/
  | blank (text : String)
  /-- A token, whose kind is its text. -/
  | token (text : String) (role : String := "")
  /-- A rule of the grammar without parts. -/
  | leaf (kind text : String) (role : String := "")
  | rule (kind role : String) (parts : List Sketch)

namespace Sketch

mutual

/-- The text of a sketch. -/
def text : Sketch → String
  | blank text | token text _ | leaf _ text _ => text
  | rule _ _ parts => source parts

/-- The text of several sketches in a row. -/
def source : List Sketch → String
  | [] => ""
  | s :: ss => s.text ++ source ss

end

/-- The place behind a text that starts at a place. -/
def stopOf (start : Nat) (text : String) : Nat :=
  start + (Utf8.encode text).length

mutual

/-- The tree of a sketch that starts at a place of the source; blanks have none. -/
def shapes (start : Nat) : Sketch → List Shape
  | blank _ => []
  | token text role => [.mk text false false false start (stopOf start text) role []]
  | leaf kind text role => [.mk kind true false false start (stopOf start text) role []]
  | rule kind role parts =>
    [.mk kind true false false start (stopOf start (source parts)) role (shapesOfAll start parts)]

/-- The trees of several sketches in a row. -/
def shapesOfAll (start : Nat) : List Sketch → List Shape
  | [] => []
  | s :: ss => s.shapes start ++ shapesOfAll (stopOf start s.text) ss

end

/-- The tree of a program that consists of the sketches. -/
def root (parts : List Sketch) : Node :=
  .ofShape (Utf8.encode (source parts))
    (.mk "program" true false false 0 (stopOf 0 (source parts)) "" (shapesOfAll 0 parts))

/-- A parser that knows the trees of some sources, and finds nothing in all others. -/
def parser (known : List (List Sketch)) : Parser := fun _ bytes =>
  match known.find? fun parts => Utf8.encode (source parts) == bytes with
  | some parts => root parts
  | none => .ofShape bytes (.mk "program" true false false 0 bytes.length "" [])

/-! ### Declarations -/

/-- A file with declarations, one on each line. -/
def file (declarations : List Sketch) : List Sketch :=
  [.leaf "php_tag" "<?php", .blank "\n"] ++ declarations.flatMap fun d => [d, .blank "\n"]

/-- A class with what stands between its braces. -/
def cls (name : String) (body : List Sketch) : Sketch :=
  .rule "class_declaration" "" [.token "class", .blank " ", .leaf "name" name "name", .blank " ",
    .rule "declaration_list" "body" ([.token "\x7b"] ++ body ++ [.token "\x7d"])]

/-- A constant of a class. -/
def constant (name : String) (value : Sketch) : Sketch :=
  .rule "const_declaration" "" [.token "const", .blank " ",
    .rule "const_element" "" [.leaf "name" name, .blank " ", .token "=", .blank " ", value],
    .token ";"]

/-- A variable that something is named by. -/
def named (name : String) : Sketch :=
  .rule "variable_name" "name" [.token "$", .leaf "name" name]

/-- The word that makes a member of a class visible everywhere. -/
def visible (role : String) : Sketch :=
  .rule "visibility_modifier" role [.token "public"]

/-- A type of the language in front of what it is the type of. -/
def typed (type : String) : List Sketch :=
  [.rule "primitive_type" "type" [.token type], .blank " "]

/-- A public property, with what stands in front of its name. -/
def property (front : List Sketch) (name : String) : Sketch :=
  .rule "property_declaration" "" ([visible "", .blank " "] ++ front ++
    [.rule "property_element" "" [named name], .token ";"])

/-! ### Namespaces and imports -/

/-- A namespace with a body in braces, with a blank in front of each statement. -/
def braced (name : String) (statements : List Sketch) : Sketch :=
  .rule "namespace_definition" "" [.token "namespace", .blank " ",
    .rule "namespace_name" "name" [.leaf "name" name], .blank " ",
    .rule "compound_statement" "body" ([.token "\x7b"] ++
      statements.flatMap (fun s => [.blank " ", s]) ++ [.blank " ", .token "\x7d"])]

/-- A name of two parts. -/
def qualified (front name : String) : Sketch :=
  .rule "qualified_name" "" [.rule "namespace_name" "prefix" [.leaf "name" front],
    .token "\\" "prefix", .leaf "name" name]

/-- A name with another name that it is imported under. -/
def aliased (name : Sketch) (short : String) : List Sketch :=
  [name, .blank " ", .token "as", .blank " ", .leaf "name" short "alias"]

/-- The import of one name, with or without an alias. -/
def useOf (clause : List Sketch) : Sketch :=
  .rule "namespace_use_declaration" "" [.token "use", .blank " ",
    .rule "namespace_use_clause" "" clause, .token ";"]

/-- The import of two names from one namespace. -/
def useGroup (front : String) (clause clause' : List Sketch) : Sketch :=
  .rule "namespace_use_declaration" "" [.token "use", .blank " ",
    .rule "namespace_name" "" [.leaf "name" front], .token "\\",
    .rule "namespace_use_group" "body" [.token "\x7b",
      .rule "namespace_use_clause" "" clause, .token ",", .blank " ",
      .rule "namespace_use_clause" "" clause', .token "\x7d"],
    .token ";"]

end Sketch

end TypeFacts
