import TypeFacts.Declaration.Json

/-!
# Reflection snapshots

A snapshot is what a running program says about its own classes and functions, captured as JSON. The
records here hold the parts of it that matter, and `Checked.snapshot` reads them.
-/

namespace TypeFacts

/-- A type as reflection describes it. -/
inductive ReflectedTy where
  /-- A type given by its name. -/
  | named (name : Option String) (allowsNull : Bool)
  /-- One of several types. -/
  | union (members : List ReflectedTy) (allowsNull : Bool)
  /-- All of several types at once. -/
  | intersection (members : List ReflectedTy)
  deriving Repr, Inhabited

/-- A reflected parameter. -/
structure ReflectedParam where
  name : String
  position : Nat
  type : Option ReflectedTy
  optional : Bool
  variadic : Bool
  byReference : Bool
  /-- The default value, where there is one. -/
  default : Option Json
  deriving Repr

/-- A reflected function. -/
structure ReflectedFunction where
  name : String
  parameters : List ReflectedParam
  returnType : Option ReflectedTy
  docComment : Option String
  file : Option String
  line : Option Int
  deriving Repr

/-- A reflected method. -/
structure ReflectedMethod extends ReflectedFunction where
  /-- The class that declares the method, where it is not the reflected one. -/
  className : Option String
  visibility : Visibility
  isStatic : Bool
  isAbstract : Bool
  isFinal : Bool
  deriving Repr

/-- A reflected property. -/
structure ReflectedProperty where
  name : String
  visibility : Visibility
  isStatic : Bool
  readonly : Bool
  type : Option ReflectedTy
  /-- The default value, where there is one. -/
  default : Option Json
  docComment : Option String
  deriving Repr

/-- A reflected constant. -/
structure ReflectedConstant where
  name : String
  visibility : Visibility
  value : Json
  deriving Repr

/-- A reflected class, interface, trait or enum. -/
structure ReflectedClass where
  name : String
  kind : ClassKind
  isAbstract : Bool
  isFinal : Bool
  readonly : Bool
  parent : Option String
  interfaces : List String
  traits : List String
  methods : List ReflectedMethod
  properties : List ReflectedProperty
  constants : List ReflectedConstant
  docComment : Option String
  file : Option String
  line : Option Int
  deriving Repr

/-- All that a running program reports. -/
structure Snapshot where
  classes : List ReflectedClass
  functions : List ReflectedFunction
  deriving Repr

namespace Checked

/-- The three forms of reflected types. -/
inductive ReflectedForm where
  | named
  | union
  | intersection

/-- The form that a word names. -/
def ReflectedForm.ofWord? : String → Option ReflectedForm
  | "named" => some named
  | "union" => some union
  | "intersection" => some intersection
  | _ => none

/-- The reflected type of a form. -/
def ReflectedForm.build (form : ReflectedForm) (name : Option String) (allowsNull : Bool)
    (types : List ReflectedTy) : ReflectedTy :=
  match form with
  | named => .named name allowsNull
  | union => .union types allowsNull
  | intersection => .intersection types

/-- Reads the fields of a reflected type other than its members. -/
def reflectedHead (fs : List (String × Json)) : Checked (List ReflectedTy → ReflectedTy) :=
  ReflectedForm.build <$>
    optional "kind" .named (word ["named", "union", "intersection"] ReflectedForm.ofWord?) fs <*>
    optional "name" none (nullable text) fs <*> optional "allows_null" false bool fs

mutual

/-- Reads a reflected type that stands in the given number of others. -/
def reflectedTyAt (admits : Nat → Bool) (depth : Nat) (j : Json) : Checked ReflectedTy :=
  if !admits depth then complain .tooDeep
  else
    match j with
    | .obj fields =>
      reflectedHead fields <*>
        match _h : Pairs.get? "types" fields with
        | none => ok []
        | some (.arr xs) => within "types" (all (reflectedTysAt admits (depth + 1) 0 xs))
        | some _ => within "types" (complain .notList)
    | _ => complain (.notRecord "ReflectedType")
termination_by sizeOf j
decreasing_by
  have := Ty.sizeOf_get?_lt _h
  simp only [Json.arr.sizeOf_spec] at this
  omega

/-- Reads reflected types, each at its index. -/
def reflectedTysAt (admits : Nat → Bool) (depth i : Nat) (items : List Json) :
    List (Checked ReflectedTy) :=
  match items with
  | [] => []
  | x :: xs =>
    within (Number.natText i) (reflectedTyAt admits depth x) ::
      reflectedTysAt admits depth (i + 1) xs
termination_by sizeOf items

end

/-- Reads a reflected type that stands for itself. -/
def reflectedTy (j : Json) (limits : Limits := {}) : Checked ReflectedTy :=
  reflectedTyAt (limits.reflects false) 0 j

/-- A value of any sort. -/
def anything : Json → Checked Json := ok

/-- Reads a default value, which counts only where it is said to be there. -/
def defaultValue (fs : List (String × Json)) : Checked (Option Json) :=
  (fun has value => if has then some value else none) <$>
    optional "has_default" false bool fs <*> optional "default_value" .null anything fs

section Records

variable (limits : Limits)

/-- Reads a reflected type in a field of a record. -/
def reflectedTyField : Json → Checked ReflectedTy :=
  reflectedTyAt (limits.reflects true) 0

/-- Reads a reflected parameter. -/
def reflectedParam : Json → Checked ReflectedParam :=
  record "ReflectedParameter" fun fs =>
    ReflectedParam.mk <$> required "name" text fs <*> required "position" (intFrom 0) fs <*>
      optional "type" none (nullable (reflectedTyField limits)) fs <*>
      optional "optional" false bool fs <*> optional "variadic" false bool fs <*>
      optional "by_reference" false bool fs <*> defaultValue fs

/-- Reads the fields of a reflected function. -/
def reflectedFunctionFields (fs : List (String × Json)) : Checked ReflectedFunction :=
  ReflectedFunction.mk <$> required "name" text fs <*>
    optional "parameters" [] (list (reflectedParam limits)) fs <*>
    optional "return_type" none (nullable (reflectedTyField limits)) fs <*>
    optional "doc_comment" none (nullable text) fs <*> optional "file" none (nullable text) fs <*>
    optional "line" none (nullable int) fs

/-- Reads a reflected function. -/
def reflectedFunction : Json → Checked ReflectedFunction :=
  record "ReflectedFunction" (reflectedFunctionFields limits)

/-- Reads a reflected method. -/
def reflectedMethod : Json → Checked ReflectedMethod :=
  record "ReflectedMethod" fun fs =>
    ReflectedMethod.mk <$> reflectedFunctionFields limits fs <*>
      optional "class_name" none (nullable text) fs <*> optional "visibility" .pub visibility fs <*>
      optional "static" false bool fs <*> optional "abstract" false bool fs <*>
      optional "final" false bool fs

/-- Reads a reflected property. -/
def reflectedProperty : Json → Checked ReflectedProperty :=
  record "ReflectedProperty" fun fs =>
    ReflectedProperty.mk <$> required "name" text fs <*> optional "visibility" .pub
      visibility fs <*>
      optional "static" false bool fs <*> optional "readonly" false bool fs <*>
      optional "type" none (nullable (reflectedTyField limits)) fs <*> defaultValue fs <*>
      optional "doc_comment" none (nullable text) fs

/-- Reads a reflected constant. -/
def reflectedConstant : Json → Checked ReflectedConstant :=
  record "ReflectedConstant" fun fs =>
    ReflectedConstant.mk <$> required "name" text fs <*> optional "visibility" .pub
      visibility fs <*>
      optional "value" .null anything fs

/-- Reads a reflected class. -/
def reflectedClass : Json → Checked ReflectedClass :=
  record "ReflectedClass" fun fs =>
    ReflectedClass.mk <$> required "name" text fs <*> optional "kind" .cls classKind fs <*>
      optional "abstract" false bool fs <*> optional "final" false bool fs <*>
      optional "readonly" false bool fs <*> optional "parent" none (nullable text) fs <*>
      optional "interfaces" [] (list text) fs <*> optional "traits" [] (list text) fs <*>
      optional "methods" [] (list (reflectedMethod limits)) fs <*>
      optional "properties" [] (list (reflectedProperty limits)) fs <*>
      optional "constants" [] (list reflectedConstant) fs <*>
      optional "doc_comment" none (nullable text) fs <*> optional "file" none (nullable text) fs <*>
      optional "line" none (nullable int) fs

/-- Reads a snapshot. -/
def snapshot : Json → Checked Snapshot :=
  record "ReflectionSnapshot" fun fs =>
    Snapshot.mk <$> optional "classes" [] (list (reflectedClass limits)) fs <*>
      optional "functions" [] (list (reflectedFunction limits)) fs

end Records

end Checked

end TypeFacts
