/-!
# Decimal digits

Whole numbers as rows of ASCII digits, most significant first, and back.
-/

namespace TypeFacts.Number

/-- The ASCII digit of a value below ten. -/
def digitChar (d : Nat) : Char :=
  Char.ofNat ('0'.toNat + d)

/-- The digits of a natural number; zero has one. -/
def natDigits (n : Nat) : List Char :=
  if n < 10 then [digitChar n] else natDigits (n / 10) ++ [digitChar (n % 10)]

/-- The digits of an integer, with a minus sign in front of a negative one. -/
def intDigits (i : Int) : List Char :=
  if i < 0 then '-' :: natDigits i.natAbs else natDigits i.natAbs

/-- A natural number as text. -/
def natText (n : Nat) : String :=
  String.ofList (natDigits n)

/-- An integer as text. -/
def intText (i : Int) : String :=
  String.ofList (intDigits i)

/-- The value of an ASCII digit. -/
def digitValue (c : Char) : Nat :=
  c.toNat - '0'.toNat

/-- The number that a row of ASCII digits stands for. -/
def ofDigits (cs : List Char) : Nat :=
  cs.foldl (fun n c => 10 * n + digitValue c) 0

/-- The most digits that a whole number may have to be read or written. -/
def digitLimit : Nat := 4300

/-- Does a whole number have more digits than are read and written? -/
def isLong (n : Nat) : Bool :=
  digitLimit < (natDigits n).length

/-- The wording for a whole number with more digits than are read. -/
def digitLimitMessage (digits : Nat) : String :=
  "Exceeds the limit (" ++ natText digitLimit ++
    " digits) for integer string conversion: value has " ++ natText digits ++
    " digits; use sys.set_int_max_str_digits() to increase the limit"

/-- The lower-case hexadecimal digit of a value below sixteen. -/
def hexChar (d : Nat) : Char :=
  if d < 10 then digitChar d else Char.ofNat ('a'.toNat + (d - 10))

/-- The last `width` hexadecimal digits of a number. -/
def hexDigits : Nat → Nat → List Char
  | 0, _ => []
  | width + 1, n => hexDigits width (n / 16) ++ [hexChar (n % 16)]

/-- The value of a hexadecimal digit in either letter case. -/
def hexValue? (c : Char) : Option Nat :=
  if '0' ≤ c && c ≤ '9' then some (c.toNat - '0'.toNat)
  else if 'a' ≤ c && c ≤ 'f' then some (c.toNat - 'a'.toNat + 10)
  else if 'A' ≤ c && c ≤ 'F' then some (c.toNat - 'A'.toNat + 10)
  else none

end TypeFacts.Number
