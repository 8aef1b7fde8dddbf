import TypeFacts.Snapshot.Basic
import TypeFacts.TypeText.Parse

/-!
# Declarations from reflection

Reflected records become declarations: names lose the backslashes in front, parameters are put in
order of their positions, and default values are described by their types.
-/

namespace TypeFacts

/-! ### Types -/

mutual

/-- The type of a value. -/
def Json.typeOf : Json → Ty
  | .null => .null
  | .bool _ => .scalar .bool false
  | .int _ => .scalar .int false
  | .float _ => .scalar .float false
  | .str _ => .scalar .string false
  | .arr [] => .anyArray
  | .arr (x :: xs) => .keyed (.scalar .int false) (.merge (x.typeOf :: Json.typesOf xs)) false
  | .obj [] => .anyArray
  | .obj ((_, x) :: fields) =>
    .keyed (.scalar .string false) (.merge (x.typeOf :: Json.typesOfFields fields)) false

/-- The types of several values. -/
def Json.typesOf : List Json → List Ty
  | [] => []
  | x :: xs => x.typeOf :: Json.typesOf xs

/-- The types of the values of several fields. -/
def Json.typesOfFields : List (String × Json) → List Ty
  | [] => []
  | (_, x) :: fields => x.typeOf :: Json.typesOfFields fields

end

namespace ReflectedTy

/-- Sets the flag of a descriptor where null is allowed besides; `mixed` allows it anyway. -/
def allowing (allowsNull : Bool) (t : Ty) : Ty :=
  if allowsNull && !t.isMixed then t.withNullable true else t

mutual

/-- The descriptor of a reflected type. An intersection is described as `mixed`. -/
def toTy : ReflectedTy → Except Ty.Fault Ty
  | named name n => do
    let t ← match name with
      | some s => TypeText.parse s
      | none => pure none
    return allowing n (t.getD .mixed)
  | union ms n => do return allowing n (.merge (← toTys ms))
  | intersection _ => .ok .mixed

/-- The descriptors of several reflected types. -/
def toTys : List ReflectedTy → Except Ty.Fault (List Ty)
  | [] => .ok []
  | t :: ts => do return (← t.toTy) :: (← toTys ts)

end

end ReflectedTy

/-- The descriptor of a reflected type that may be left out. -/
def reflectedType (t : Option ReflectedTy) : Except Ty.Fault (Option Ty) :=
  match t with
  | some t => t.toTy.map some
  | none => .ok none

/-! ### Declarations -/

namespace ReflectedParam

/-- The declaration of a reflected parameter. -/
def toDecl (p : ReflectedParam) : Except Ty.Fault ParamDecl := do
  let type ← reflectedType p.type
  return {
    name := String.ofList (p.name.toList.dropWhile (· == '$'))
    position := p.position
    type := type
    optional := p.optional || p.default.isSome || p.variadic
    variadic := p.variadic
    byReference := p.byReference
    defaultValue := p.default.map Json.typeOf }

/-- Puts a parameter in front of the first one whose position is not below its own. -/
def insertSorted (p : ReflectedParam) : List ReflectedParam → List ReflectedParam
  | [] => [p]
  | q :: qs => if p.position ≤ q.position then p :: q :: qs else q :: insertSorted p qs

/-- Parameters in order of their positions; those of one position stay in order. -/
def sorted (ps : List ReflectedParam) : List ReflectedParam :=
  ps.foldr insertSorted []

end ReflectedParam

/-- The declarations of reflected parameters. -/
def reflectedParams (ps : List ReflectedParam) : Except Ty.Fault (List ParamDecl) :=
  (ReflectedParam.sorted ps).mapM ReflectedParam.toDecl

namespace ReflectedFunction

/-- The declaration of a reflected function. -/
def toDecl (f : ReflectedFunction) : Except Ty.Fault FunctionDecl := do
  let parameters ← reflectedParams f.parameters
  let returnType ← reflectedType f.returnType
  return {
    name := Text.withoutBackslashes f.name
    parameters := parameters
    returnType := returnType
    docComment := f.docComment
    file := f.file
    line := f.line }

end ReflectedFunction

/-- The words whose flags are set. -/
def flagged (flags : List (String × Bool)) : List String :=
  (flags.filter (·.2)).map (·.1)

namespace ReflectedMethod

/-- The declaration of a method of a reflected class with the given name and file. -/
def toDecl (m : ReflectedMethod) (className : String) (classFile : Option String) :
    Except Ty.Fault MethodDecl := do
  let parameters ← reflectedParams m.parameters
  let returnType ← reflectedType m.returnType
  return {
    name := m.name
    className := Text.withoutBackslashes ((Text.nonEmpty? m.className).getD className)
    visibility := m.visibility
    modifiers := flagged [("static", m.isStatic), ("abstract", m.isAbstract), ("final", m.isFinal)]
    parameters := parameters
    returnType := returnType
    docComment := m.docComment
    file := (Text.nonEmpty? m.file).orElse fun _ => classFile
    line := m.line }

end ReflectedMethod

namespace ReflectedProperty

/-- The declaration of a reflected property. -/
def toDecl (p : ReflectedProperty) : Except Ty.Fault PropertyDecl := do
  let type ← reflectedType p.type
  return {
    name := p.name
    visibility := p.visibility
    isStatic := p.isStatic
    readonly := p.readonly
    type := type
    defaultValue := p.default.map Json.typeOf
    docComment := p.docComment }

end ReflectedProperty

namespace ReflectedConstant

/-- The declaration of a reflected constant; a value that is no text is written as a literal. -/
def toDecl (c : ReflectedConstant) : ConstantDecl where
  name := c.name
  visibility := c.visibility
  type := some c.value.typeOf
  value := some (match c.value with
    | .str s => s
    | j => j.text .inline)

end ReflectedConstant

namespace ReflectedClass

/-- The declaration of a reflected class. -/
def toDecl (c : ReflectedClass) : Except Ty.Fault ClassDecl := do
  let name := Text.withoutBackslashes c.name
  let (ns, shortName) := match Text.cutAtLast '\\' name.toList with
    | some (before, after) => (String.ofList before, String.ofList after)
    | none => ("", name)
  let methods ← c.methods.mapM fun m => return (m.name, ← m.toDecl name c.file)
  let properties ← c.properties.mapM fun p => return (p.name, ← p.toDecl)
  return {
    name := name
    shortName := shortName
    ns := ns
    kind := c.kind
    modifiers :=
      flagged [("abstract", c.isAbstract), ("final", c.isFinal), ("readonly", c.readonly)] ++
      c.kind.modifier
    parent := (Text.nonEmpty? c.parent).map Text.withoutBackslashes
    interfaces := c.interfaces.map Text.withoutBackslashes
    traits := c.traits.map Text.withoutBackslashes
    methods := Table.ofList methods
    properties := Table.ofList properties
    constants := Table.ofList (c.constants.map fun k => (k.name, k.toDecl))
    docComment := c.docComment
    file := c.file
    line := c.line }

end ReflectedClass

end TypeFacts
