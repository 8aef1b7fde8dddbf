import TypeFacts.Table
import TypeFacts.Text.Basic

/-!
# Files of variables

A file of variables has one `NAME=value` per line, with an optional `export` in front. A value may
stand between single or double quotes and then go on over several lines; otherwise it ends at the
end of the line, or before a blank and a number sign. Lines that begin with a number sign are passed
over, and so is the rest of a line from the place where it cannot be read. A name without an equals
sign is a variable without a value.

A value may refer to other variables, as in `${NAME}` or `${NAME:-default}`. References are replaced
when the line is read, so that they see the lines above, and the environment for all other names.
-/

namespace TypeFacts.VariableFile

/-! ### Lines -/

/-- Blanks within a line. -/
def isInnerBlank (c : Char) : Bool := Text.isBlank c && c != '\n'

/-- Drops blanks within a line. -/
def skipInner (cs : List Char) : List Char := cs.dropWhile isInnerBlank

/-- What follows the line that a text begins with. -/
def nextLine (cs : List Char) : List Char := (cs.dropWhile (· != '\n')).drop 1

/-- Drops an `export` in front that a blank follows. -/
def dropExport (cs : List Char) : List Char :=
  if "export".toList.isPrefixOf cs then
    let rest := cs.drop 6
    if rest.head?.any isInnerBlank then skipInner rest else cs
  else cs

/-- What follows the comment and the blanks at the end of a line; nothing else may stand there. -/
def lineEnd? (cs : List Char) : Option (List Char) :=
  match skipInner cs with
  | [] => some []
  | '\n' :: rest => some rest
  | '#' :: rest => some (nextLine rest)
  | _ => none

/-! ### Names -/

/-- The single quote. -/
def singleQuote : Char := Char.ofNat 0x27

/-- May the character stand in a name without quotes? -/
def isNameChar (c : Char) : Bool := c != '=' && c != '#' && !Text.isBlank c

/-- The name in front of a text, which may stand between single quotes, and what follows it. -/
def name? (cs : List Char) : Option (List Char × List Char) :=
  match cs with
  | [] => none
  | c :: rest =>
    let (name, after) :=
      if c == singleQuote then (Text.cutAt singleQuote rest).getD ([], rest)
      else (cs.takeWhile isNameChar, cs.dropWhile isNameChar)
    if name.isEmpty then none else some (name, after)

/-! ### Values -/

/-- The characters up to a closing quote and what follows it. A backslash takes the next character
with it, so that a quote behind it does not close; escapes are left as they are. -/
def quotedBody? (quote : Char) : List Char → Option (List Char × List Char)
  | [] => none
  | '\\' :: c :: cs =>
    (quotedBody? quote cs).map fun (body, rest) => ('\\' :: c :: body, rest)
  | c :: cs =>
    if c == quote then some ([], cs)
    else (quotedBody? quote cs).map fun (body, rest) => (c :: body, rest)

/-- The character that a letter after a backslash stands for between double quotes. -/
def escapeChar : Char → Char
  | 'a' => Char.ofNat 0x07
  | 'b' => Char.ofNat 0x08
  | 'f' => Char.ofNat 0x0C
  | 'n' => '\n'
  | 'r' => '\r'
  | 't' => '\t'
  | 'v' => Char.ofNat 0x0B
  | c => c

/-- Replaces the escapes whose letters are given. -/
def unescape (letters : List Char) : List Char → List Char
  | '\\' :: c :: cs =>
    if letters.contains c then escapeChar c :: unescape letters cs
    else '\\' :: unescape letters (c :: cs)
  | c :: cs => c :: unescape letters cs
  | [] => []

/-- The part of a line before a comment, which is a number sign behind a blank. -/
def cutComment : List Char → List Char
  | [] => []
  | c :: cs =>
    if Text.isBlank c && (Text.trimLeft cs).head? == some '#' then [] else c :: cutComment cs

/-- Reads the value behind an equals sign. There is none where a quote is not closed. -/
def value? (cs : List Char) : Option (List Char × List Char) :=
  let plain := (Text.trim (cutComment (cs.takeWhile (· != '\n'))), cs.dropWhile (· != '\n'))
  match skipInner cs with
  | [] => some plain
  | c :: rest =>
    if c == singleQuote then
      (quotedBody? c rest).map fun (body, after) => (unescape ['\\', singleQuote] body, after)
    else if c == '"' then
      (quotedBody? c rest).map fun (body, after) =>
        (unescape ['\\', singleQuote, '"', 'a', 'b', 'f', 'n', 'r', 't', 'v'] body, after)
    else some plain

/-! ### Bindings -/

/-- A line that names a variable, with its value where it gives one. -/
structure Binding where
  name : String
  value : Option String
  deriving DecidableEq, Repr

/-- Reads a line, or several where a quoted value goes on over them. The second part is
what follows. -/
def readLine (cs : List Char) : Option Binding × List Char :=
  let cs := dropExport cs
  match name? cs with
  | none => (none, nextLine cs)
  | some (name, after) =>
    match skipInner after with
    | '=' :: rest =>
      match value? rest with
      | none => (none, nextLine rest)
      | some (value, after) =>
        match lineEnd? after with
        | none => (none, nextLine after)
        | some next => (some ⟨String.ofList name, some (String.ofList value)⟩, next)
    | rest =>
      match lineEnd? rest with
      | none => (none, nextLine rest)
      | some next => (some ⟨String.ofList name, none⟩, next)

/-- The bindings of a text, read with a limit on the number of lines. -/
def bindings : Nat → List Char → List Binding
  | 0, _ => []
  | fuel + 1, cs =>
    match Text.trimLeft cs with
    | [] => []
    | line =>
      let (found, rest) := readLine line
      found.toList ++ bindings fuel rest

/-! ### References -/

/-- A reference to a variable, with what stands for it where it is not set. -/
structure Reference where
  name : String
  default : String
  deriving DecidableEq, Repr

/-- Reads a reference whose opening brace has just been taken, up to the closing one. -/
def reference? (cs : List Char) : Option (Reference × List Char) :=
  let isNamePart (c : Char) : Bool := c != '}' && c != ':'
  let name := String.ofList (cs.takeWhile isNamePart)
  match cs.dropWhile isNamePart with
  | '}' :: rest => some (⟨name, ""⟩, rest)
  | ':' :: '-' :: rest =>
    (Text.cutAt '}' rest).map fun (default, rest) => (⟨name, String.ofList default⟩, rest)
  | _ => none

/-- A reference takes at least its closing brace. -/
theorem length_lt_of_reference? {cs rest : List Char} {r : Reference}
    (h : reference? cs = some (r, rest)) : rest.length < cs.length := by
  simp only [reference?] at h
  split at h
  · next tail hd =>
    simp only [Option.some.injEq, Prod.mk.injEq] at h
    obtain ⟨-, rfl⟩ := h
    have := Text.length_dropWhile_le (fun c : Char => c != '}' && c != ':') cs
    rw [hd, List.length_cons] at this
    omega
  · next tail hd =>
    have hle := Text.length_dropWhile_le (fun c : Char => c != '}' && c != ':') cs
    rw [hd, List.length_cons, List.length_cons] at hle
    simp only [Text.cutAt] at h
    split at h
    · simp at h
    · next c after ha =>
      simp only [Option.map_some, Option.some.injEq, Prod.mk.injEq] at h
      obtain ⟨-, rfl⟩ := h
      have := Text.length_dropWhile_le (· != '}') tail
      rw [ha, List.length_cons] at this
      omega
  · simp at h

/-- Replaces the references in a value. -/
def expand (resolve : Reference → String) (cs : List Char) : List Char :=
  match cs with
  | [] => []
  | '$' :: '{' :: rest =>
    match _h : reference? rest with
    | some (r, after) => (resolve r).toList ++ expand resolve after
    | none => '$' :: expand resolve ('{' :: rest)
  | c :: rest => c :: expand resolve rest
termination_by cs.length
decreasing_by
  · have := length_lt_of_reference? _h
    simp only [List.length_cons]
    omega
  · simp
  · simp

/-- The text that a reference stands for. A variable of the file comes before one of the
environment, and one without a value is empty. -/
def resolve (environment : Table String) (known : Table (Option String)) (r : Reference) : String :=
  match known.get? r.name with
  | some value => value.getD ""
  | none => (environment.get? r.name).getD r.default

/-- Takes in one more binding, whose value may refer to the variables known so far. -/
def bind (environment : Table String) (known : Table (Option String)) (b : Binding) :
    Table (Option String) :=
  known.insert b.name <| b.value.map fun value =>
    String.ofList (expand (resolve environment known) value.toList)

/-- Drops the mark of the byte order in front of a text. -/
def dropMark : List Char → List Char
  | '\ufeff' :: cs => cs
  | cs => cs

/-- The variables of a file, in the order in which they are first named. -/
def read (environment : Table String) (text : String) : Table (Option String) :=
  let cs := Text.unifyLineEnds (dropMark text.toList)
  (bindings (cs.length + 1) cs).foldl (bind environment) .empty

end TypeFacts.VariableFile
