import TypeFacts.Infer.Builtin
import TypeFacts.Tree.Node
import TypeFacts.TypeText.Parse

/-!
# Plans of inference

The type of an expression depends on the types of some of its parts. A plan says which parts these
are, in the order in which they are looked at, and how their types determine the type of the whole.
Literals and type names need no part; operators, conditions and array literals do.
-/

namespace TypeFacts

namespace Node

/-- The nodes smaller than a node. -/
abbrev Below (n : Node) := { c : Node // sizeOf c < sizeOf n }

/-- The first part that plays the role, as a smaller node. -/
def childBelow? (n : Node) (role : String) : Option n.Below :=
  match h : n.child? role with
  | some c => some ⟨c, sizeOf_lt_of_mem (mem_children_of_child? h)⟩
  | none => none

/-- The named parts, as smaller nodes. -/
def namedBelow (n : Node) : List n.Below :=
  n.namedChildren.attach.map fun ⟨c, h⟩ => ⟨c, sizeOf_lt_of_mem (mem_children_of_mem_named h)⟩

/-- A node below a smaller node is smaller, too. -/
def Below.trans {n : Node} (c : n.Below) (d : c.1.Below) : n.Below :=
  ⟨d.1, Nat.lt_trans d.2 c.2⟩

end Node

namespace Infer

/-- The parts of a node whose types count, and how they determine its type. -/
structure Plan (n : Node) where
  parts : List n.Below
  combine : List Ty → Except Ty.Fault Ty

namespace Plan

variable {n : Node}

/-- The plan of a node whose type depends on no part. -/
def const (result : Except Ty.Fault Ty) : Plan n := ⟨[], fun _ => result⟩

/-- The plan of a node whose type is known. -/
def known (t : Ty) : Plan n := const (.ok t)

/-- The plan of a node with the type of one part, changed by a function. -/
def ofPart (part : n.Below) (f : Ty → Ty) : Plan n :=
  ⟨[part], fun ts => .ok (f (ts.headD .mixed))⟩

end Plan

/-! ### Literals and type names -/

/-- The scalar kind of a literal. -/
def literalKind? : String → Option ScalarKind
  | "integer" => some .int
  | "float" => some .float
  | "string" | "encapsed_string" | "heredoc" | "nowdoc" | "shell_command_expression" => some .string
  | "boolean" => some .bool
  | _ => none

/-- The kinds of nodes that name a type. -/
def typeKinds : List String :=
  ["primitive_type", "named_type", "optional_type", "union_type", "intersection_type",
    "disjunctive_normal_form_type", "bottom_type", "cast_type", "type_list"]

/-- The type that a text names, or `mixed` where it names none. -/
def namedBy (text : String) : Except Ty.Fault Ty :=
  (TypeText.parse text).map (·.getD .mixed)

/-- The type that a cast leads to. -/
def castType (text : String) : Except Ty.Fault Ty :=
  match Text.lower (Text.trimmed text) with
  | "unset" | "void" => .ok .null
  | "binary" => .ok (.scalar .string false)
  | "real" => .ok (.scalar .float false)
  | word => namedBy word

/-! ### Operators -/

/-- The operator of a node: the part that plays this role, or else the first mere token. -/
def operator (n : Node) : String :=
  match (n.child? "operator").orElse fun _ => n.children.find? fun c => !c.isNamed with
  | some c => Text.lower (Text.trimmed c.text)
  | none => ""

/-- Operators on numbers. -/
def isArithmetic (op : String) : Bool :=
  ["+", "-", "*", "/", "%", "**"].contains op

/-- Operators that give a truth value: comparisons and connectives. -/
def isLogical (op : String) : Bool :=
  ["==", "!=", "<>", "===", "!==", "<", ">", "<=", ">=", "instanceof", "&&", "||", "and", "or",
    "xor"].contains op

/-- Operators that give an integer: those on bits, and the three-way comparison. -/
def isBitwise (op : String) : Bool :=
  ["&", "|", "^", "<<", ">>", "<=>"].contains op

/-- The type of a number computed from two others. -/
def arithmetic (left right : Ty) : Ty :=
  if left.name == "float" || right.name == "float" then .scalar .float false
  else if left.name == "int" && right.name == "int" then .scalar .int false
  else .mixed

/-- The type of the first operand that is not null: of all but the last, null does not count. -/
def coalesce : List Ty → List Ty
  | [] => []
  | [t] => [t]
  | t :: ts => t.withNullable false :: coalesce ts

/-- The plan of an operation on two operands. -/
def binaryPlan (n : Node) : Plan n :=
  let op := operator n
  let left := n.childBelow? "left"
  let right := n.childBelow? "right"
  if isArithmetic op then
    match left, right with
    | some l, some r =>
      ⟨[l, r], fun ts => .ok (arithmetic (ts.headD .mixed) (ts.getD 1 .mixed))⟩
    | _, _ => .known .mixed
  else if op == "." then .known (.scalar .string false)
  else if isLogical op then .known (.scalar .bool false)
  else if isBitwise op then .known (.scalar .int false)
  else if op == "??" then
    ⟨left.toList ++ right.toList, fun ts => .ok (.merge (coalesce ts))⟩
  else .known .mixed

/-- The type of a number with a sign in front. -/
def signed : Ty → Ty
  | .scalar .int n => .scalar .int n
  | .scalar .float n => .scalar .float n
  | _ => .mixed

/-- The plan of an operation on one operand. -/
def unaryPlan (n : Node) : Plan n :=
  let op := operator n
  let operand := (n.childBelow? "argument").orElse fun _ => n.namedBelow.getLast?
  if op == "!" then .known (.scalar .bool false)
  else if op == "~" then .known (.scalar .int false)
  else
    match operand with
    | some x => .ofPart x (if op == "-" || op == "+" then signed else id)
    | none => .known .mixed

/-- The plan of a condition. Without a middle part the condition itself is the first alternative. -/
def ternaryPlan (n : Node) : Plan n :=
  let first := (n.childBelow? "body").orElse fun _ => n.childBelow? "condition"
  ⟨first.toList ++ (n.childBelow? "alternative").toList, fun ts => .ok (.merge ts)⟩

/-! ### Array literals -/

/-- An entry of an array literal. -/
inductive Entry (n : Node) where
  /-- The values of another array. -/
  | unpacked
  /-- A value without a key. -/
  | single (value : n.Below)
  /-- A key and a value. -/
  | pair (key value : n.Below)

namespace Entry

variable {n : Node}

/-- The parts of an entry. -/
def parts : Entry n → List n.Below
  | unpacked => []
  | single v => [v]
  | pair k v => [k, v]

/-- The key and value types of entries, given the types of their parts. -/
def types : List (Entry n) → List Ty → List Ty × List Ty
  | [], _ => ([], [])
  | unpacked :: es, ts => let (ks, vs) := types es ts; (ks, .mixed :: vs)
  | single _ :: es, ts =>
    let (ks, vs) := types es ts.tail
    (.scalar .int false :: ks, ts.headD .mixed :: vs)
  | pair _ _ :: es, ts =>
    let (ks, vs) := types es (ts.drop 2)
    (ts.headD .mixed :: ks, ts.getD 1 .mixed :: vs)

/-- The entry that an element of an array literal makes. -/
def ofElement? (element : n.Below) : Option (Entry n) :=
  let ps := element.1.namedBelow.filter fun p => p.1.kind != "comment" && p.1.kind != "by_ref"
  match ps with
  | [] => none
  | p :: rest =>
    if p.1.kind == "variadic_unpacking" then some unpacked
    else
      match rest.getLast? with
      | none => some (single (element.trans p))
      | some last => some (pair (element.trans p) (element.trans last))

end Entry

/-- The type of an array literal with the given key and value types. -/
def arrayLiteral (keys values : List Ty) : Ty :=
  match values with
  | [] => .anyArray
  | _ => .arrayOf (if keys.isEmpty then none else some (.merge keys)) (.merge values) false

/-- The plan of an array literal. -/
def arrayPlan (n : Node) : Plan n :=
  let elements := n.namedBelow.filter fun e => e.1.kind == "array_element_initializer"
  let entries := elements.filterMap Entry.ofElement?
  ⟨entries.flatMap Entry.parts, fun ts =>
    let (ks, vs) := Entry.types entries ts
    .ok (arrayLiteral ks vs)⟩

/-! ### All nodes -/

/-- The result type of a call. -/
def callType (functions : FunctionTypes) (n : Node) : Ty :=
  match n.child? "function" with
  | some f =>
    if f.kind == "name" || f.kind == "qualified_name" then
      (Pairs.get? (Text.lower (Text.withoutBackslashes f.text)) functions).getD .mixed
    else .mixed
  | none => .mixed

/-- The type of a new object. -/
def creationType (n : Node) : Except Ty.Fault Ty :=
  match n.namedOf? ["name", "qualified_name"] with
  | some c => Ty.ofName (Text.withoutBackslashes c.text) false
  | none => .ok .mixed

/-- The plan of a node. Variables, properties and calls that are not known are of any type. -/
def plan (functions : FunctionTypes) (n : Node) : Plan n :=
  match literalKind? n.kind with
  | some k => .known (.scalar k false)
  | none =>
    match n.kind with
    | "null" => .known .null
    | "array_creation_expression" => arrayPlan n
    | "binary_expression" => binaryPlan n
    | "conditional_expression" => ternaryPlan n
    | "unary_op_expression" => unaryPlan n
    | "cast_expression" =>
      match (n.child? "type").orElse fun _ => n.namedOf? ["cast_type"] with
      | some t => .const (castType t.text)
      | none => .known .mixed
    | "parenthesized_expression" =>
      match n.namedBelow.find? fun c => c.1.kind != "comment" with
      | some c => .ofPart c id
      | none => .known .mixed
    | "function_call_expression" => .known (callType functions n)
    | "object_creation_expression" => .const (creationType n)
    | kind => if typeKinds.contains kind then .const (namedBy n.text) else .known .mixed

end Infer

end TypeFacts
