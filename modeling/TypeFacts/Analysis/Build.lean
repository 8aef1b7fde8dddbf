import TypeFacts.Doc.Reader
import TypeFacts.Outline.Basic
import TypeFacts.TypeText.Qualify

/-!
# Building declarations

A declaration is put together from what the source says, what the doc comment says and what
reflection says. For every type the first of these that knows it counts, in this order. A type that
none knows is left out.

The types in a doc comment are taken in the scope of the declaration; the comments of declarations
that only reflection knows have no scope and are taken as written.
-/

namespace TypeFacts.Analysis

/-- A computation that reads doc comments and may meet a type without a descriptor. -/
abbrev DocM := ExceptT Ty.Fault (StateM Doc.Reader)

/-- The block of a doc comment. -/
def docBlock (comment : Option String) : DocM DocBlock :=
  modifyGet fun reader => reader.block comment

/-- The type that a doc comment gives. -/
def docType (scope : Option Scope) (text : Option String) : Except Ty.Fault (Option Ty) :=
  match Text.nonEmpty? text with
  | none => .ok none
  | some text =>
    match scope with
    | none => TypeText.parse text
    | some scope => TypeText.resolve scope text

/-- The full name of a class that a doc comment names. -/
def docName (scope : Option Scope) (name : String) : String :=
  match scope with
  | none => Text.withoutBackslashes name
  | some scope => scope.qualify name

/-- The full names of the documented thrown types. -/
def thrownNames (scope : Option Scope) (doc : DocBlock) : List String :=
  (doc.tagsNamed "throws").filterMap fun tag =>
    (tag.type.filter (· != "")).map (docName scope)

/-! ### Parameters -/

/-- A parameter that the source declares. -/
def sourceParameter (scope : Scope) (doc : DocBlock) (reflected : Option ParamDecl)
    (p : ParamOutline) : Except Ty.Fault ParamDecl := do
  let tag := doc.paramTag? p.name
  let documented ← docType (some scope) (tag.bind (·.type))
  return {
    name := p.name
    position := p.position
    type := (p.declaredType.or documented).or (reflected.bind (·.type))
    optional := p.optional
    variadic := p.variadic
    byReference := p.byReference
    defaultValue := p.defaultType.or (reflected.bind (·.defaultValue))
    description := (tag.map (·.description)).getD ""
    promoted := p.promoted }

/-- A parameter that only reflection knows. -/
def reflectedParameter (doc : DocBlock) (p : ParamDecl) : Except Ty.Fault ParamDecl := do
  match doc.paramTag? p.name with
  | none => return p
  | some tag =>
    let documented ← docType none tag.type
    return { p with type := documented.or p.type, description := tag.description }

/-! ### Functions and methods -/

/-- A function or method that the source declares, under the given name. -/
def sourceFunction (name : String) (scope : Scope) (file : String)
    (reflected : Option FunctionDecl) (f : FunctionOutline) : DocM FunctionDecl := do
  let comment := f.docComment.or (reflected.bind (·.docComment))
  let doc ← docBlock comment
  let parameters ← f.parameters.mapM fun p =>
    sourceParameter scope doc (reflected.bind (·.parameter? p.name)) p
  let documented ← docType (some scope) ((doc.firstTag? "return").bind (·.type))
  return {
    name := name
    parameters := parameters
    returnType := (f.declaredReturn.or documented).or (reflected.bind (·.returnType))
    docComment := comment
    throws := thrownNames (some scope) doc
    file := some file
    line := (f.line.map Int.ofNat).or (reflected.bind (·.line)) }

/-- A function or method that only reflection knows. -/
def reflectedFunction (f : FunctionDecl) : DocM FunctionDecl := do
  let doc ← docBlock f.docComment
  let parameters ← f.parameters.mapM fun p => reflectedParameter doc p
  let documented ← docType none ((doc.firstTag? "return").bind (·.type))
  return { f with
    parameters := parameters
    returnType := documented.or f.returnType
    throws := thrownNames none doc }

/-- A method that the source declares. -/
def sourceMethod (cls : ClassOutline) (file : String) (reflected : Option MethodDecl)
    (m : FunctionOutline) : DocM MethodDecl := do
  let f ← sourceFunction m.name cls.scope file (reflected.map (·.toFunctionDecl)) m
  return { f with className := cls.name, visibility := m.visibility, modifiers := m.modifiers }

/-- A method that only reflection knows. -/
def reflectedMethod (m : MethodDecl) : DocM MethodDecl := do
  return { m with toFunctionDecl := ← reflectedFunction m.toFunctionDecl }

/-! ### Properties and constants -/

/-- The type of the parameter of the constructor that makes the property. -/
def promotedType (constructor : Option MethodDecl) (name : String) : Option Ty :=
  (constructor.bind (·.parameter? name)).bind fun p => p.promoted.bind fun _ => p.type

/-- A property that the source declares. A property made by the constructor is documented there. -/
def sourceProperty (scope : Scope) (constructor : Option MethodDecl)
    (reflected : Option PropertyDecl) (p : PropertyOutline) : DocM PropertyDecl := do
  let doc ← docBlock p.docComment
  let own ← docType (some scope) ((doc.firstTag? "var").bind (·.type))
  let documented := own.or (promotedType constructor p.name)
  return {
    name := p.name
    visibility := p.visibility
    isStatic := p.isStatic
    readonly := p.readonly
    type := (p.declaredType.or documented).or (reflected.bind (·.type))
    defaultValue := p.defaultType.or (reflected.bind (·.defaultValue))
    docComment := p.docComment.or (reflected.bind (·.docComment)) }

/-- A property that only reflection knows. -/
def reflectedProperty (p : PropertyDecl) : DocM PropertyDecl := do
  let doc ← docBlock p.docComment
  let documented ← docType none ((doc.firstTag? "var").bind (·.type))
  return { p with type := documented.or p.type }

/-- A constant that the source declares. -/
def sourceConstant (c : ConstantOutline) : ConstantDecl where
  name := c.name
  visibility := c.visibility
  type := c.valueType
  value := c.value

/-! ### Classes -/

/-- The names of the one list and those of the other that are not among them in any letter case. -/
def unionNames (first second : List String) : List String :=
  first ++ second.filter fun name => !(first.map Text.lower).contains (Text.lower name)

/-- The methods of a reflected class by their names in lower case. -/
def methodsIgnoringCase (reflected : Option ClassDecl) : Table MethodDecl :=
  Table.ofList <| ((reflected.map (·.methods.entries)).getD []).map fun (name, m) =>
    (Text.lower name, m)

/-- The methods of a class: those of the source, and of reflection those with other names. -/
def buildMethods (keep : Bool) (cls : ClassOutline) (file : String) (reflected : Option ClassDecl) :
    DocM (Table MethodDecl) := do
  let known := methodsIgnoringCase reflected
  let own ← cls.methods.mapM fun m => do
    return (m.name, ← sourceMethod cls file (known.get? (Text.lower m.name)) m)
  let methods := Table.ofList own
  if keep then
    let declared := methods.names.map Text.lower
    let others := known.entries.filter fun e => !declared.contains e.1
    return methods.insertAll (← others.mapM fun e => do return (e.2.name, ← reflectedMethod e.2))
  else return methods

/-- The properties of a class: those of the source, and of reflection those with other names. -/
def buildProperties (keep : Bool) (cls : ClassOutline) (constructor : Option MethodDecl)
    (reflected : Option ClassDecl) : DocM (Table PropertyDecl) := do
  let own ← cls.properties.mapM fun p => do
    let other := reflected.bind fun r => r.properties.get? p.name
    return (p.name, ← sourceProperty cls.scope constructor other p)
  let properties := Table.ofList own
  if keep then
    let known := (reflected.map (·.properties.entries)).getD []
    let others := known.filter fun e => !properties.contains e.1
    return properties.insertAll
      (← others.mapM fun e => do return (e.1, ← reflectedProperty e.2))
  else return properties

/-- The constants of a class: those of the source, and of reflection those with other names. -/
def buildConstants (keep : Bool) (cls : ClassOutline) (reflected : Option ClassDecl) :
    Table ConstantDecl :=
  let constants := Table.ofList (cls.constants.map fun c => (c.name, sourceConstant c))
  let known := (reflected.map (·.constants.entries)).getD []
  if keep then constants.insertAll (known.filter fun e => !constants.contains e.1) else constants

/-- A class that the source declares. The flag says whether members are kept that only
reflection knows. -/
def buildClass (keepReflected : Bool) (file : String) (reflected : Option ClassDecl)
    (cls : ClassOutline) : DocM ClassDecl := do
  let methods ← buildMethods keepReflected cls file reflected
  let constructor := methods.values.find? (·.isConstructor)
  let properties ← buildProperties keepReflected cls constructor reflected
  let further (names : ClassDecl → List String) : List String :=
    if keepReflected then (reflected.map names).getD [] else []
  return {
    name := cls.name
    shortName := cls.shortName
    ns := cls.ns
    kind := cls.kind
    modifiers := cls.modifiers
    parent := match reflected with
      | none => cls.parent
      | some r => (cls.parent.filter (· != "")).or r.parent
    interfaces := unionNames cls.interfaces (further (·.interfaces))
    traits := unionNames cls.traits (further (·.traits))
    methods := methods
    properties := properties
    constants := buildConstants keepReflected cls reflected
    docComment := cls.docComment.or (reflected.bind (·.docComment))
    file := some file
    line := cls.line.map Int.ofNat }

/-- A class that only reflection knows. -/
def reflectedClass (c : ClassDecl) : DocM ClassDecl := do
  let methods ← c.methods.entries.mapM fun e => do return (e.1, ← reflectedMethod e.2)
  let properties ← c.properties.entries.mapM fun e => do return (e.1, ← reflectedProperty e.2)
  return { c with methods := Table.ofList methods, properties := Table.ofList properties }

/-! ### Files -/

/-- All that a file declares. -/
def buildFile (keepReflected : Bool) (file : String) (faults : List SourceFault)
    (outline : FileOutline) : DocM FileReport := do
  let classes ← outline.classes.mapM fun c => do
    return (c.name, ← buildClass keepReflected file none c)
  let functions ← outline.functions.mapM fun f => do
    return (f.qualifiedName, ← sourceFunction f.qualifiedName f.scope file none f)
  return {
    file := file
    ns := outline.scope.ns
    classes := Table.ofList classes
    functions := Table.ofList functions
    errors := faults }

end TypeFacts.Analysis
