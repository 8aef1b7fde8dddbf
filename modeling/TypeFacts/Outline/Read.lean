import TypeFacts.Infer.Basic
import TypeFacts.Outline.Basic
import TypeFacts.Tree.Name
import TypeFacts.TypeText.Qualify

/-!
# Reading outlines from syntax trees

Declarations are read in order of the source. Types are taken in the scope of the declaration, and
default values are described by the types inferred for them.
-/

namespace TypeFacts.Outline

open Infer (InferM FunctionTypes infer infer?)

/-- The type that a part of a declaration names. -/
def declaredType (scope : Scope) (part : Option Node) : InferM (Option Ty) :=
  match part with
  | none => return none
  | some n => TypeText.resolve scope n.text

/-- A name without dollar signs in front. -/
def withoutDollars (s : String) : String :=
  String.ofList (s.toList.dropWhile (· == '$'))

/-! ### Functions and methods -/

/-- The kinds of nodes that declare a parameter. -/
def parameterKinds : List String :=
  ["simple_parameter", "variadic_parameter", "property_promotion_parameter"]

/-- The variable that a parameter declares. -/
def parameterVariable? (n : Node) : Option Node :=
  let own := match n.child? "name" with
    | some c => if c.kind == "by_ref" then c.namedOf? ["variable_name"] else some c
    | none => none
  own.orElse fun _ => n.namedOf? ["variable_name"]

/-- Is the parameter passed by reference? -/
def isByReference (n : Node) : Bool :=
  (n.child? "reference_modifier").isSome ||
    n.children.any (fun c => c.kind == "reference_modifier" || c.kind == "&") ||
    (n.child? "name").any (·.kind == "by_ref")

/-- Reads a parameter. -/
def readParameter (functions : FunctionTypes) (scope : Scope) (position : Nat) (n : Node) :
    InferM (Option ParamOutline) := do
  match parameterVariable? n with
  | none => return none
  | some var =>
    let declared ← declaredType scope (n.child? "type")
    let default := n.child? "default_value"
    let defaultType ← infer? functions default
    let variadic := n.kind == "variadic_parameter"
    let isPromoted := n.kind == "property_promotion_parameter"
    return some {
      name := withoutDollars var.text
      position := position
      declaredType := declared
      defaultType := defaultType
      optional := default.isSome || variadic
      variadic := variadic
      byReference := isByReference n
      promoted := if isPromoted then some (.ofModifiers n.modifiers) else none
      promotedReadonly := isPromoted && n.modifiers.contains "readonly" }

/-- Reads parameters that follow others; one that cannot be read takes no position. -/
def readParameters (functions : FunctionTypes) (scope : Scope) :
    Nat → List Node → InferM (List ParamOutline)
  | _, [] => return []
  | position, n :: ns => do
    match ← readParameter functions scope position n with
    | some p => return p :: (← readParameters functions scope (position + 1) ns)
    | none => readParameters functions scope position ns

/-- Reads a function, or a method of the given class. -/
def readFunction (functions : FunctionTypes) (scope : Scope) (owner : Option String) (c : Cursor) :
    InferM (Option FunctionOutline) := do
  let n := c.node
  match n.name? with
  | none => return none
  | some name =>
    let nodes := ((n.child? "parameters").map Node.namedChildren).getD []
    let parameters ← readParameters functions scope 0
      (nodes.filter fun p => parameterKinds.contains p.kind)
    let declared ← declaredType scope (n.child? "return_type")
    return some {
      name := name
      qualifiedName := match owner with
        | some cls => cls ++ "::" ++ name
        | none => Scope.underNamespace scope.ns name
      parameters := parameters
      declaredReturn := declared
      docComment := c.docComment?
      line := some n.line
      visibility := .ofModifiers n.modifiers
      modifiers := n.modifiers.filter ["static", "abstract", "final"].contains
      scope := scope }

/-! ### Members of classes -/

/-- The properties that a constructor makes of its parameters. -/
def promotedProperties (m : FunctionOutline) : List PropertyOutline :=
  if Text.asciiLower m.name == "__construct" then
    m.parameters.filterMap fun p => p.promoted.map fun v =>
      { name := p.name
        visibility := v
        readonly := p.promotedReadonly
        declaredType := p.declaredType
        defaultType := p.defaultType }
  else []

/-- The default value of a property. -/
def propertyDefault? (element : Node) : Option Node :=
  (element.child? "default_value").orElse fun _ =>
    (element.namedOf? ["property_initializer"]).bind (·.namedChildren.head?)

/-- Reads the properties of a declaration. -/
def readProperties (functions : FunctionTypes) (scope : Scope) (c : Cursor) :
    InferM (List PropertyOutline) := do
  let n := c.node
  let declared ← declaredType scope (n.child? "type")
  let elements := n.namedChildren.filter (·.kind == "property_element")
  let named := elements.filterMap fun e =>
    ((e.child? "name").orElse fun _ => e.namedOf? ["variable_name"]).map fun v => (v, e)
  named.mapM fun (var, e) => do
    let defaultType ← infer? functions (propertyDefault? e)
    return {
      name := withoutDollars var.text
      visibility := .ofModifiers n.modifiers
      isStatic := n.modifiers.contains "static"
      readonly := n.modifiers.contains "readonly"
      declaredType := declared
      defaultType := defaultType
      docComment := c.docComment? }

/-- Reads the constants of a declaration. -/
def readConstants (functions : FunctionTypes) (n : Node) : InferM (List ConstantOutline) := do
  let elements := n.namedChildren.filter (·.kind == "const_element")
  let found := elements.filterMap fun e =>
    match e.namedChildren.filter (·.kind != "comment") with
    | name :: second :: rest =>
      some (name, (e.child? "value").getD ((second :: rest).getLast (List.cons_ne_nil second rest)))
    | _ => none
  found.mapM fun (name, value) => do
    let valueType ← infer functions value
    return {
      name := name.text
      visibility := .ofModifiers n.modifiers
      valueType := some valueType
      value := some value.text }

/-- Reads a case of an enum. A case without a value is an instance of the enum. -/
def readCase (functions : FunctionTypes) (enumName : String) (n : Node) :
    InferM (Option ConstantOutline) := do
  match n.name? with
  | none => return none
  | some name =>
    match n.child? "value" with
    | none =>
      let t ← (Ty.ofName enumName false : Except Ty.Fault Ty)
      return some { name := name, valueType := some t }
    | some value =>
      let t ← infer functions value
      return some { name := name, valueType := some t, value := some value.text }

/-- Reads one member of a class into what was read before. -/
def readMember (functions : FunctionTypes) (cls : ClassOutline) (c : Cursor) :
    InferM ClassOutline := do
  match c.node.kind with
  | "method_declaration" =>
    match ← readFunction functions cls.scope (some cls.name) c with
    | none => return cls
    | some m =>
      return { cls with
        methods := cls.methods ++ [m]
        properties := cls.properties ++ promotedProperties m }
  | "property_declaration" =>
    let ps ← readProperties functions cls.scope c
    return { cls with properties := cls.properties ++ ps }
  | "const_declaration" =>
    let ks ← readConstants functions c.node
    return { cls with constants := cls.constants ++ ks }
  | "enum_case" =>
    let k ← readCase functions cls.name c.node
    return { cls with constants := cls.constants ++ k.toList }
  | "use_declaration" =>
    return { cls with traits := cls.traits ++ c.node.clauseNames.map cls.scope.qualify }
  | _ => return cls

/-! ### Classes and files -/

/-- Takes one clause of the header of a class into account. -/
def readClause (cls : ClassOutline) (n : Node) : ClassOutline :=
  let names := n.clauseNames.map cls.scope.qualify
  if n.kind == "base_clause" then
    if cls.kind == .interface then { cls with interfaces := cls.interfaces ++ names }
    else
      match names with
      | [] => cls
      | first :: _ => { cls with parent := some first }
  else if n.kind == "class_interface_clause" then
    { cls with interfaces := cls.interfaces ++ names }
  else cls

/-- The header of a class. -/
def classHeader (c : Cursor) (shortName : String) : ClassOutline :=
  let scope := c.scope
  let kind := Node.classKindOf c.node.kind
  let header : ClassOutline := {
    name := Scope.underNamespace scope.ns shortName
    shortName := shortName
    ns := scope.ns
    kind := kind
    modifiers := c.node.modifiers.filter ["abstract", "final", "readonly"].contains ++ kind.modifier
    docComment := c.docComment?
    line := some c.node.line
    scope := scope }
  c.node.namedChildren.foldl readClause header

/-- The places of the members of a class. -/
def memberPlaces (c : Cursor) : List Cursor :=
  match c.node.child? "body" with
  | some body => Cursor.namedChildren ⟨body, []⟩
  | none => []

/-- Reads a class; one without a name is passed over. -/
def readClass (functions : FunctionTypes) (c : Cursor) : InferM (Option ClassOutline) :=
  match c.node.name? with
  | none => return none
  | some shortName =>
    return some (← (memberPlaces c).foldlM (readMember functions) (classHeader c shortName))

/-- Reads all declarations of a file. -/
def readTree (functions : FunctionTypes) (root : Node) : InferM FileOutline := do
  let start := Cursor.ofRoot root
  let classes ← (start.find Node.classKinds).mapM (readClass functions)
  let free ← (start.find ["function_definition"]).mapM fun c =>
    readFunction functions c.scope none c
  return {
    scope := ⟨root.firstNamespace, root.fileImports⟩
    classes := classes.filterMap id
    functions := free.filterMap id }

end TypeFacts.Outline
