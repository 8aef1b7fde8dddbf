import TypeFacts.Declaration.Basic
import TypeFacts.Scope
import TypeFacts.Tree.Cursor

/-!
# Names in syntax trees

The names that declarations, namespaces, imports and clauses give, the modifiers of a declaration,
and the scope in effect at a place.
-/

namespace TypeFacts

namespace Node

/-- The name of a declaration. -/
def name? (n : Node) : Option String :=
  (n.child? "name").map text

/-- The kinds of nodes that are names of classes. -/
def nameKinds : List String := ["name", "qualified_name"]

/-- The kinds of nodes that are names in an import. -/
def importNameKinds : List String := nameKinds ++ ["namespace_name"]

/-- A name without backslashes at either end. -/
def withoutOuterBackslashes (s : String) : String :=
  let cs := Text.dropBackslashes s.toList
  String.ofList (Text.dropBackslashes cs.reverse).reverse

/-- The namespace that a definition opens; the global one has an empty name. -/
def namespaceName (definition : Node) : String :=
  match definition.child? "name" with
  | none => ""
  | some n =>
    Text.joined "\\" ((n.namedChildren.filter (·.kind == "name")).map text)

/-- The first namespace that a file opens. -/
def firstNamespace (root : Node) : String :=
  ((root.namedOf? ["namespace_definition"]).map namespaceName).getD ""

/-! ### Imports -/

/-- The short name that an import clause gives besides the name it imports. -/
def importAlias? (clause : Node) (names : List Node) : Option Node :=
  let aliasing := (clause.namedOf? ["namespace_aliasing_clause"]).bind (·.namedOf? ["name"])
  ((clause.child? "alias").orElse fun _ => aliasing).orElse fun _ => names[1]?

/-- The import of one clause, from the short to the full name. The group that the clause belongs to
may have a name in front. -/
def importOfClause? (group : String) (clause : Node) : Option (String × String) :=
  let names := clause.namedChildren.filter fun c => importNameKinds.contains c.kind
  match names with
  | [] => none
  | first :: _ =>
    let own := withoutOuterBackslashes first.text
    let full := if group.isEmpty then own else group ++ "\\" ++ own
    let short := match importAlias? clause names with
      | some n => n.text
      | none => match Text.cutAtLast '\\' full.toList with
        | some (_, last) => String.ofList last
        | none => full
    some (short, full)

/-- The imports of the parts of a declaration, given the name of the group read before. -/
def importsOfParts (group : String) : List Node → List (String × String)
  | [] => []
  | part :: parts =>
    if part.kind == "namespace_use_clause" then
      (importOfClause? "" part).toList ++ importsOfParts group parts
    else if part.kind == "namespace_use_group" then
      (part.namedChildren.filter fun c =>
          c.kind == "namespace_use_clause" || c.kind == "namespace_use_group_clause").filterMap
        (importOfClause? group) ++ importsOfParts group parts
    else if importNameKinds.contains part.kind then
      importsOfParts (withoutOuterBackslashes part.text) parts
    else importsOfParts group parts

/-- The imports of a declaration, in order. -/
def imports (declaration : Node) : List (String × String) :=
  importsOfParts "" declaration.namedChildren

/-- The imports among the statements of a file. -/
def fileImports (root : Node) : Table String :=
  Table.ofList ((root.namedChildren.filter (·.kind == "namespace_use_declaration")).flatMap imports)

/-! ### Clauses and modifiers -/

/-- The names that a clause lists. -/
def clauseNames (clause : Node) : List String :=
  (clause.namedChildren.filter fun c => nameKinds.contains c.kind).map text

/-- The word of a modifier. -/
def modifierWord? (n : Node) : Option String :=
  match n.kind with
  | "visibility_modifier" => some (Text.lower n.text)
  | "var_modifier" => some "public"
  | "static_modifier" => some "static"
  | "abstract_modifier" => some "abstract"
  | "final_modifier" => some "final"
  | "readonly_modifier" => some "readonly"
  | _ => none

/-- The modifiers of a declaration, in order. -/
def modifiers (n : Node) : List String :=
  n.children.filterMap modifierWord?

/-- The kinds of nodes that declare classes, interfaces, traits and enums. -/
def classKinds : List String :=
  ["class_declaration", "interface_declaration", "trait_declaration", "enum_declaration"]

/-- The kind of class that a kind of node declares. -/
def classKindOf : String → ClassKind
  | "interface_declaration" => .interface
  | "trait_declaration" => .trait
  | "enum_declaration" => .enum
  | _ => .cls

end Node

/-! ### Scopes -/

namespace Scope

/-- Takes one statement into account that stands before a place. -/
def afterStatement (scope : Scope) (statement : Node) : Scope :=
  if statement.kind == "namespace_definition" && (statement.child? "body").isNone then
    ⟨statement.namespaceName, .empty⟩
  else if statement.kind == "namespace_use_declaration" then
    { scope with imports := scope.imports.insertAll statement.imports }
  else scope

/-- The scope after those statements that begin before a place. -/
def before (start : Nat) (scope : Scope) (statements : List Node) : Scope :=
  (statements.takeWhile fun s => s.start < start).foldl afterStatement scope

end Scope

namespace Cursor

/-- The scope of the statement `statement` whose surroundings are given. A braced namespace has a
scope of its own; else the statements of the program count. Outside a program there is no scope. -/
def scopeIn (statement : Node) : List Frame → Scope
  | [] => {}
  | ⟨block, _⟩ :: rest =>
    if block.kind == "program" then
      Scope.before statement.start {} block.namedChildren
    else
      match rest with
      | ⟨outer, _⟩ :: _ =>
        if block.kind == "compound_statement" && outer.kind == "namespace_definition" then
          Scope.before statement.start { ns := outer.namespaceName } block.namedChildren
        else scopeIn block rest
      | [] => scopeIn block rest

/-- The scope in effect at a place. -/
def scope (c : Cursor) : Scope :=
  scopeIn c.node c.above

end Cursor

end TypeFacts
