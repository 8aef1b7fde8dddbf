import TypeFacts.Checked.Basic
import TypeFacts.Text.Class

/-!
# Checks of plain fields

The checks of texts, truth values, whole numbers, words, lists and maps. Truth values and whole
numbers may also be given by numbers and texts that stand for them.
-/

namespace TypeFacts.Checked

variable {α : Type}

/-- A text. -/
def text : Json → Checked String
  | .str s => ok s
  | _ => complain .notText

/-- A text with at least one character. -/
def nonEmptyText (j : Json) : Checked String :=
  (text j).andThen fun s => if s.isEmpty then complain .emptyText else ok s

/-- Null for no value, or a value of the given sort. -/
def nullable (check : Json → Checked α) : Json → Checked (Option α)
  | .null => ok none
  | j => map some (check j)

/-- One of a few words. -/
def word (words : List String) (ofWord : String → Option α) : Json → Checked α
  | .str s =>
    match ofWord s with
    | some a => ok a
    | none => complain (.notOneOf words)
  | _ => complain (.notOneOf words)

/-! ### Truth values -/

/-- The truth value that a word in any letter case stands for. -/
def boolOfWord? (s : String) : Option Bool :=
  match String.ofList (s.toList.map Char.toLower) with
  | "0" | "off" | "f" | "false" | "n" | "no" => some false
  | "1" | "on" | "t" | "true" | "y" | "yes" => some true
  | _ => none

/-- The number `2 ^ 63`. -/
def wordBound : Int := 9223372036854775808

/-- Is the whole number one that fits into 64 bits with a sign? -/
def fitsWord (i : Int) : Bool :=
  -wordBound ≤ i && i < wordBound

/-- Is the magnitude of a whole number below `2 ^ 63`? Of floating point numbers no others are taken
as whole numbers. -/
def isModerate (i : Int) : Bool :=
  -wordBound < i && i < wordBound

/-- The truth value that a whole number stands for. -/
def boolOfInt (i : Int) : Checked Bool :=
  if i == 0 then ok false
  else if i == 1 then ok true
  else if fitsWord i then complain .unclearBool
  else complain .notBool

/-- A truth value, or a number or word that stands for one. -/
def bool : Json → Checked Bool
  | .bool b => ok b
  | .int i => boolOfInt i
  | .float x =>
    match x.toInt? with
    | some i => if isModerate i then boolOfInt i else complain .notBool
    | none => complain .notBool
  | .str s =>
    match boolOfWord? s with
    | some b => ok b
    | none => complain .unclearBool
  | _ => complain .notBool

/-! ### Whole numbers -/

/-- Drops the zeros in front of the digits of a numeral, and the underscores among them. A
zero stays in front of a point and where nothing else is left. A minus sign may stand behind
the zeros. -/
def dropZeros? : List Char → Option (List Char)
  | [] => none
  | '0' :: cs => after '0' cs
  | c :: cs => if c.isDigit then some (c :: cs) else none
where
  /-- Goes on behind the character `last`, a zero or an underscore. -/
  after (last : Char) : List Char → Option (List Char)
    | [] => some [last]
    | '.' :: cs => some (last :: '.' :: cs)
    | c :: cs =>
      if c == '0' || c == '_' then after c cs
      else if c.isDigit || c == '-' then some (c :: cs)
      else none

/-- The part of a numeral before its point, behind which there have to be zeros only, and at
least one. -/
def wholePart? (cs : List Char) : Option (List Char) :=
  match Text.cutAt '.' cs with
  | none => some cs
  | some (whole, zeros) => if !zeros.isEmpty && zeros.all (· == '0') then some whole else none

/-- Drops single underscores between other characters. -/
def ungrouped? (cs : List Char) : Option (List Char) :=
  let groups := Text.splitAt (· == '_') cs
  if groups.all fun g => !g.isEmpty then some groups.flatten else none

/-- Are the characters the digits of a whole number, without a zero in front of others? -/
def areDigits (cs : List Char) : Bool :=
  !cs.isEmpty && cs.all Char.isDigit && (cs.length == 1 || cs.head? != some '0')

/-- The digits of a numeral for a whole number, and whether it is negative: an optional sign, digits
in which underscores may stand, and possibly a point with zeros behind it. -/
def digitsOfNumeral? (cs : List Char) : Option (Bool × List Char) := do
  let (negative, body) := match cs with
    | '-' :: rest => (true, rest)
    | '+' :: rest => (false, rest)
    | rest => (false, rest)
  let whole ← wholePart? (← dropZeros? body)
  let (negative, digits) := match negative, ← ungrouped? whole with
    | false, '-' :: ds => (true, ds)
    | negative, ds => (negative, ds)
  if areDigits digits then some (negative, digits) else none

/-- The digits of the whole number that a text begins with, behind an optional minus sign; none
where it begins with a zero. -/
def leadingDigits (cs : List Char) : List Char :=
  let body := match cs with
    | '-' :: rest => rest
    | rest => rest
  if body.head? == some '0' then [] else body.takeWhile Char.isDigit

/-- The blanks around a numeral; the information separators are none of them. -/
def isPadding (c : Char) : Bool :=
  Text.isBlank c && !(0x1C ≤ c.toNat && c.toNat ≤ 0x1F)

/-- Drops the blanks around a numeral. -/
def unpadded (cs : List Char) : List Char :=
  (((cs.dropWhile isPadding).reverse).dropWhile isPadding).reverse

/-- A whole number, or a truth value, number or numeral that stands for one. A text that begins with
too many digits is oversized whatever follows them; one in which they show only after signs, zeros
and underscores are dropped is no numeral. -/
def int : Json → Checked Int
  | .int i => ok i
  | .bool b => ok b.toNat
  | .float x =>
    match x with
    | .finite _ _ _ =>
      match x.toInt? with
      | some i => if isModerate i then ok i else complain .oversized
      | none => complain .fractional
    | _ => complain .notFinite
  | .str s =>
    if Number.digitLimit < (leadingDigits s.toList).length then complain .oversized
    else
      match digitsOfNumeral? (unpadded s.toList) with
      | some (negative, ds) =>
        let n : Int := Number.ofDigits ds
        if Number.digitLimit < ds.length then complain .unclearInt
        else ok (if negative then -n else n)
      | none => complain .unclearInt
  | _ => complain .notInt

/-- A whole number not below a bound. -/
def intFrom (least : Nat) (j : Json) : Checked Nat :=
  (int j).andThen fun i => if i < least then complain (.atLeast least) else ok i.toNat

/-- A whole number between two bounds. -/
def intBetween (least greatest : Nat) (j : Json) : Checked Nat :=
  (intFrom least j).andThen fun n => if greatest < n then complain (.atMost greatest) else ok n

/-! ### Lists, maps and records -/

/-- The checks of the items of a list, each at its index. -/
def itemChecks (check : Json → Checked α) : Nat → List Json → List (Checked α)
  | _, [] => []
  | i, x :: xs => within (Number.natText i) (check x) :: itemChecks check (i + 1) xs

/-- A list of values of the given sort. -/
def list (check : Json → Checked α) : Json → Checked (List α)
  | .arr xs => all (itemChecks check 0 xs)
  | _ => complain .notList

/-- The checks of the values of a map, each at its name. -/
def entryChecks (check : Json → Checked α) :
    List (String × Json) → List (Checked (String × α))
  | [] => []
  | (name, x) :: fields =>
    within name (map (fun a => (name, a)) (check x)) :: entryChecks check fields

/-- A map from names to values of the given sort, in order. -/
def entries (check : Json → Checked α) : Json → Checked (List (String × α))
  | .obj fields => all (entryChecks check fields)
  | _ => complain .notMap

/-- The fields of a record of the given kind. -/
def record (kind : String) (check : List (String × Json) → Checked α) : Json → Checked α
  | .obj fields => check fields
  | _ => complain (.notRecord kind)

/-- A field that has to be there. -/
def required (name : String) (check : Json → Checked α) (fields : List (String × Json)) :
    Checked α :=
  within name <|
    match Pairs.get? name fields with
    | some j => check j
    | none => complain .missing

/-- A field with a default. -/
def optional (name : String) (default : α) (check : Json → Checked α)
    (fields : List (String × Json)) : Checked α :=
  match Pairs.get? name fields with
  | some j => within name (check j)
  | none => ok default

end TypeFacts.Checked
