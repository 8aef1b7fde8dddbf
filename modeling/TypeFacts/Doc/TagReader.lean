import TypeFacts.Doc.TypeToken
import TypeFacts.Json.Basic
import TypeFacts.Text.Case
import TypeFacts.Text.Literal

/-!
# Readers of tag contents

A tag reader takes the content of a tag and gives the values it found there by name; no value means
that it did not understand the content. The built-in readers cover parameters, return types,
variables, thrown types and uploaded files.
-/

namespace TypeFacts.Doc

/-- Why a tag reader gives up. -/
inductive TagFault where
  /-- A unit of size that is none of the known ones. -/
  | unknownUnit (unit : String)
  /-- A number with more digits than are read. -/
  | longNumber (digits : Nat)
  /-- Any other reason, in a reader that was added later. -/
  | refused
  deriving DecidableEq, Repr

/-- The wording of a fault. -/
def TagFault.message : TagFault → String
  | unknownUnit unit => Text.literal unit
  | longNumber digits => Number.digitLimitMessage digits
  | refused => ""

/-- The values that a reader found, by name. -/
abbrev TagValues := List (String × Json)

/-- A reader of tag contents. -/
abbrev TagReader := String → Except TagFault TagValues

/-! ### Variables -/

/-- What follows the name of a variable: nothing, or a blank and a description. -/
def description? (cs : List Char) : Option String :=
  match cs with
  | [] => some ""
  | c :: _ => if Text.isBlank c then some (String.ofList (Text.trim cs)) else none

/-- A variable with a description: an optional `&`, optional dots, a dollar sign and a word. -/
structure Variable where
  name : String
  description : String
  variadic : Bool
  deriving DecidableEq, Repr

/-- Drops the sign of a reference and the blanks behind it. -/
def dropReference : List Char → List Char
  | '&' :: cs => Text.trimLeft cs
  | cs => cs

/-- Drops the dots of a variadic parameter and says whether there were any. -/
def dropDots : List Char → Bool × List Char
  | '.' :: '.' :: '.' :: cs => (true, cs)
  | cs => (false, cs)

/-- Reads a variable with a description. -/
def Variable.ofChars? (cs : List Char) : Option Variable :=
  let (variadic, rest) := dropDots (dropReference cs)
  match rest with
  | '$' :: c :: body =>
    if Text.isWord c then
      (description? (body.dropWhile Text.isWord)).map fun d =>
        ⟨String.ofList (c :: body.takeWhile Text.isWord), d, variadic⟩
    else none
  | _ => none

/-! ### Parameters, return types, variables and thrown types -/

/-- The description behind the name of a file: nothing, a line end, or a blank and at least one
more character. -/
def fileDescription? (cs : List Char) : Option String :=
  match cs with
  | [] => some ""
  | [c] => if c == '\n' then some "" else none
  | c :: _ => if Text.isBlank c then some (String.ofList (Text.trim cs)) else none

/-- A file given as `{file} name description`: its name and its description. -/
def fileParameter? (cs : List Char) : Option (String × String) :=
  match cs with
  | '{' :: rest =>
    let closed := (Text.dropWordIgnoringCase "file".toList rest).orElse fun _ =>
      Text.dropWordIgnoringCase "upload".toList rest
    match closed with
    | some ('}' :: c :: rest) =>
      if Text.isBlank c then
        let body := match Text.trimLeft rest with
          | '$' :: body => body
          | body => body
        match body.takeWhile Text.isWord with
        | [] => none
        | name => (fileDescription? (body.dropWhile Text.isWord)).map (String.ofList name, ·)
      else none
    | _ => none
  | _ => none

/-- The type names that stand for an uploaded file. -/
def isFileType (name : String) : Bool :=
  let word := Text.asciiLower name
  word == "file" || word == "upload" || word == "uploadedfile"

/-- Does the text begin like a variable and not like a type? -/
def beginsVariable : List Char → Bool
  | '$' :: _ | '&' :: _ | '.' :: '.' :: '.' :: _ => true
  | _ => false

/-- Reads `type $name description`, with the type left out or a file in braces in its place. -/
def readParam : TagReader := fun content =>
  match fileParameter? content.toList with
  | some (name, description) =>
    .ok [("type", .str "file"), ("variable", .str name), ("description", .str description),
      ("is_file_upload", .bool true)]
  | none =>
    let (token, rest) := splitTypeChars content.toList
    let (token, rest) :=
      if beginsVariable token then ([], Text.trim content.toList) else (token, rest)
    match Variable.ofChars? rest with
    | none => .ok []
    | some v =>
      let type := String.ofList token
      let values :=
        [("type", if token.isEmpty then .null else .str type), ("variable", .str v.name),
        ("description", .str v.description), ("variadic", .bool v.variadic)]
      .ok (if isFileType type then values ++ [("is_file_upload", .bool true)] else values)

/-- Reads `type description`. -/
def readTyped : TagReader := fun content =>
  let (token, rest) := splitTypeToken content
  if token.isEmpty then .ok []
  else .ok [("type", .str token), ("description", .str (Text.trimmed rest))]

/-- Reads `type $name description`, where the name may be left out. -/
def readVar : TagReader := fun content =>
  let (token, rest) := splitTypeToken content
  if token.isEmpty then .ok []
  else
    let description := Text.trim rest.toList
    match Variable.ofChars? description with
    | none => .ok [("type", .str token), ("description", .str (String.ofList description))]
    | some v =>
      .ok [("type", .str token), ("description", .str v.description), ("variable", .str v.name)]

/-! ### Uploaded files -/

/-- The bytes in a unit of size. -/
def unitBytes? : String → Option Nat
  | "KB" => some 1024
  | "MB" => some (1024 * 1024)
  | "GB" => some (1024 * 1024 * 1024)
  | _ => none

/-- A limit on size, as written: the digits of a number and a unit, which is `MB` where none
is given. -/
def sizeLimit? (word : List Char) : Option (List Char × String) :=
  match Text.dropWordIgnoringCase "max:".toList word with
  | none => none
  | some body =>
    match body.takeWhile Text.isDecimal with
    | [] => none
    | digits =>
      match body.dropWhile Text.isDecimal with
      | [] => some (digits, "MB")
      | [u, b] =>
        if (Text.matchesLetter 'k' u || Text.matchesLetter 'm' u || Text.matchesLetter 'g' u) &&
            Text.matchesLetter 'b' b then
          some (digits, String.ofList [u.toUpper, b.toUpper])
        else none
      | _ => none

/-- The extensions that are taken for one even when they stand alone. -/
def knownExtensions : List String :=
  ["jpg", "jpeg", "png", "gif", "webp", "svg", "pdf", "txt", "csv", "doc", "docx", "xls",
    "xlsx", "zip"]

/-- The extensions that a word lists: several separated by commas, or a known one alone. -/
def extensions? (word : List Char) : Option (List String) :=
  let parts := Text.splitAt (· == ',') word
  let plain (p : List Char) : Bool := !p.isEmpty && p.all fun c => c.isLower || c.isDigit
  if (1 < parts.length && parts.all plain) || knownExtensions.contains (String.ofList word) then
    some (parts.map String.ofList)
  else none

/-- What the words behind the name of an upload say. -/
structure Upload where
  required : Bool := false
  allowedTypes : List String := []
  maxSize : Option Nat := none
  description : List String := []

/-- Takes in one more word about an upload. -/
def Upload.add (u : Upload) (word : List Char) : Except TagFault Upload :=
  if String.ofList word == "required" then .ok { u with required := true }
  else
    match sizeLimit? word with
    | some (digits, unit) =>
      if Number.digitLimit < digits.length then .error (.longNumber digits.length)
      else
        match unitBytes? unit with
        | some bytes => .ok { u with maxSize := some (Text.decimalValue digits * bytes) }
        | none => .error (.unknownUnit unit)
    | none =>
      match extensions? word with
      | some types => .ok { u with allowedTypes := types }
      | none => .ok { u with description := u.description ++ [String.ofList word] }

/-- Reads `name required jpg,png max:2MB description`, where all but the name may be left out. -/
def readUpload : TagReader := fun content =>
  match Text.words content.toList with
  | [] => .ok []
  | name :: words => do
    let u ← words.foldlM Upload.add {}
    return [("variable", .str (String.ofList (name.dropWhile (· == '$')))),
      ("description", .str (Text.joined " " u.description)), ("is_file_upload", .bool true),
      ("required", .bool u.required), ("allowed_types", Json.ofTexts u.allowedTypes),
      ("max_size", Json.ofInt? (u.maxSize.map Int.ofNat))]

/-- The built-in readers by tag name. -/
def builtinReaders : List (String × TagReader) :=
  [("param", readParam), ("return", readTyped), ("var", readVar), ("throws", readTyped),
    ("upload", readUpload), ("file", readUpload)]

end TypeFacts.Doc
