import TypeFacts.Json.Basic

/-!
# The text of JSON values

A layout says what stands around the items of a list and the fields of an object and whether
characters beyond ASCII are escaped. `Layout.indented` is the layout of stored records: two blanks
per level, characters as they are. `Layout.inline` is the layout of literal values: one line, ASCII
only.
-/

namespace TypeFacts.Json

/-- What is written between the parts of a value. -/
structure Layout where
  /-- Are characters outside printable ASCII escaped? -/
  asciiOnly : Bool
  /-- What follows an opening bracket, for items at the given depth. -/
  opening : Nat → List Char
  /-- What separates two items at the given depth. -/
  between : Nat → List Char
  /-- What stands before a closing bracket at the given depth. -/
  closing : Nat → List Char
  /-- What separates a name from its value. -/
  colon : List Char

/-- A new line with two blanks per level. -/
def newLine (depth : Nat) : List Char :=
  '\n' :: List.replicate (2 * depth) ' '

/-- One item per line, two blanks per level, characters as they are. -/
def Layout.indented : Layout where
  asciiOnly := false
  opening := newLine
  between depth := ',' :: newLine depth
  closing := newLine
  colon := [':', ' ']

/-- All on one line with a blank after each separator, ASCII only. -/
def Layout.inline : Layout where
  asciiOnly := true
  opening _ := []
  between _ := [',', ' ']
  closing _ := []
  colon := [':', ' ']

/-- All on one line without blanks, characters as they are. -/
def Layout.compact : Layout where
  asciiOnly := false
  opening _ := []
  between _ := [',']
  closing _ := []
  colon := [':']

/-- The escape of a code unit by its number. -/
def unitEscape (n : Nat) : List Char :=
  '\\' :: 'u' :: Number.hexDigits 4 n

/-- A character inside a quoted text. -/
def escaped (asciiOnly : Bool) (c : Char) : List Char :=
  if c == '"' then ['\\', '"']
  else if c == '\\' then ['\\', '\\']
  else if c == '\n' then ['\\', 'n']
  else if c == '\r' then ['\\', 'r']
  else if c == '\t' then ['\\', 't']
  else if c.toNat == 0x08 then ['\\', 'b']
  else if c.toNat == 0x0C then ['\\', 'f']
  else if c.toNat < 0x20 then unitEscape c.toNat
  else if asciiOnly && 0x7F ≤ c.toNat then
    if c.toNat < 0x10000 then unitEscape c.toNat
    else
      let n := c.toNat - 0x10000
      unitEscape (0xD800 + n / 0x400) ++ unitEscape (0xDC00 + n % 0x400)
  else [c]

/-- A quoted text. -/
def quoted (asciiOnly : Bool) (s : String) : List Char :=
  '"' :: (s.toList.flatMap (escaped asciiOnly) ++ ['"'])

mutual

/-- The characters of a value whose brackets stand at the given depth. -/
def chars (l : Layout) (depth : Nat) : Json → List Char
  | null => "null".toList
  | bool true => "true".toList
  | bool false => "false".toList
  | int i => Number.intDigits i
  | float x => x.text "NaN" "Infinity"
  | str s => quoted l.asciiOnly s
  | arr [] => ['[', ']']
  | arr (x :: xs) =>
    '[' :: (l.opening (depth + 1) ++ (chars l (depth + 1) x ++
      (itemsAfter l (depth + 1) xs ++ (l.closing depth ++ [']']))))
  | obj [] => ['{', '}']
  | obj ((name, x) :: fields) =>
    '{' :: (l.opening (depth + 1) ++ (quoted l.asciiOnly name ++ (l.colon ++
      (chars l (depth + 1) x ++ (fieldsAfter l (depth + 1) fields ++ (l.closing depth ++ ['}']))))))

/-- The items after the first one, each with its separator. -/
def itemsAfter (l : Layout) (depth : Nat) : List Json → List Char
  | [] => []
  | x :: xs => l.between depth ++ (chars l depth x ++ itemsAfter l depth xs)

/-- The fields after the first one, each with its separator. -/
def fieldsAfter (l : Layout) (depth : Nat) : List (String × Json) → List Char
  | [] => []
  | (name, x) :: fields =>
    l.between depth ++ (quoted l.asciiOnly name ++ (l.colon ++
      (chars l depth x ++ fieldsAfter l depth fields)))

end

/-- The text of a value. -/
def text (l : Layout) (j : Json) : String :=
  String.ofList (chars l 0 j)

/-! ### Numbers that are too long -/

mutual

/-- Does the value have a whole number with more digits than are written? -/
def hasLongNumeral : Json → Bool
  | int i => Number.isLong i.natAbs
  | arr xs => anyLongNumeral xs
  | obj fields => anyLongField fields
  | _ => false

/-- Does one of several values have such a number? -/
def anyLongNumeral : List Json → Bool
  | [] => false
  | x :: xs => x.hasLongNumeral || anyLongNumeral xs

/-- Does one of several fields have such a number? -/
def anyLongField : List (String × Json) → Bool
  | [] => false
  | (_, x) :: fields => x.hasLongNumeral || anyLongField fields

end

end TypeFacts.Json
