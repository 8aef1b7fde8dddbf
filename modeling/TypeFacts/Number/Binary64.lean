import TypeFacts.Number.Decimal

/-!
# Binary floating point numbers

A number of the 64-bit binary format is a sign, a whole mantissa below `2 ^ 53` and an exponent of
two, or one of the infinities, or not a number. `Binary64.ofDecimal` rounds a decimal numeral to the
nearest such number, a tie going to the even mantissa. `Binary64.shortest` gives the fewest decimal
digits that read back as the same number, and of several the nearest, a tie going to the even digit.
-/

namespace TypeFacts.Number

/-- A number of the 64-bit binary format. -/
inductive Binary64 where
  /-- Not a number. -/
  | nan
  /-- An infinity. -/
  | infinite (negative : Bool)
  /-- The number `mantissa * 2 ^ exponent`, with a sign. -/
  | finite (negative : Bool) (mantissa : Nat) (exponent : Int)
  deriving DecidableEq, Repr

namespace Binary64

/-- The number of mantissas, `2 ^ 53`. -/
def mantissaBound : Nat := 9007199254740992

/-- The quotient of two natural numbers rounded to the nearest whole number, a tie to the
even one. -/
def roundedQuotient (num den : Nat) : Nat :=
  let q := num / den
  let twice := 2 * (num % den)
  if twice < den then q
  else if den < twice then q + 1
  else if q % 2 == 0 then q else q + 1

/-- The number `base ^ exponent * factor` as a fraction. -/
def scaled (base factor : Nat) (exponent : Int) : Nat × Nat :=
  if 0 ≤ exponent then (factor * Nat.pow base exponent.toNat, 1)
  else (factor, Nat.pow base (-exponent).toNat)

/-- The least exponent of two. -/
def leastExponent : Int := -1074

/-- The greatest exponent of two. -/
def greatestExponent : Int := 971

/-- Zero. -/
def zero (negative : Bool) : Binary64 :=
  finite negative 0 leastExponent

/-- The number nearest to a positive fraction. -/
def ofFraction (negative : Bool) (num den : Nat) : Binary64 :=
  let rough : Int := (num.log2 : Int) - (den.log2 : Int) - 53
  let at_ (q : Int) : Nat × Nat :=
    if 0 ≤ q then (num, den * Nat.pow 2 q.toNat) else (num * Nat.pow 2 (-q).toNat, den)
  let fits (q : Int) : Bool := (at_ q).1 < (at_ q).2 * mantissaBound
  let q := if fits rough then rough else if fits (rough + 1) then rough + 1 else rough + 2
  let q := if q < leastExponent then leastExponent else q
  let m := roundedQuotient (at_ q).1 (at_ q).2
  let (m, q) := if m == mantissaBound then (mantissaBound / 2, q + 1) else (m, q)
  if greatestExponent < q then infinite negative else finite negative m q

/-- The number nearest to `digits * 10 ^ exponent`. Numerals far outside the range are settled by
their number of digits alone. -/
def ofDecimal (negative : Bool) (digits : Nat) (exponent : Int) : Binary64 :=
  let magnitude : Int := (natDigits digits).length + exponent
  if digits == 0 || magnitude < -400 then zero negative
  else if 400 < magnitude then infinite negative
  else
    let (num, den) := scaled 10 digits exponent
    ofFraction negative num den

/-- The whole number that a finite number is, if it is one. -/
def toInt? : Binary64 → Option Int
  | finite negative m q =>
    let (num, den) := scaled 2 m q
    if num % den == 0 then
      some (if negative then -(num / den : Nat) else (num / den : Nat))
    else none
  | _ => none

/-! ### The shortest numeral -/

/-- The exponent of ten of the first digit of a positive fraction. -/
def leadingExponent (num den : Nat) : Int :=
  if den ≤ num then ((natDigits (num / den)).length : Int) - 1
  else
    match (List.range 400).find? fun k => den ≤ num * Nat.pow 10 k with
    | some k => -(k : Int)
    | none => -400

/-- A numeral with `count` digits that reads back as the number; where two do, the nearer one, and
of two that are equally near the even one. -/
def numeralWith? (m : Nat) (q : Int) (count : Nat) : Option (Nat × Int) :=
  let (num, den) := scaled 2 m q
  let unit : Int := leadingExponent num den - count + 1
  let (n, d) := if 0 ≤ unit then (num, den * Nat.pow 10 unit.toNat)
    else (num * Nat.pow 10 (-unit).toNat, den)
  let low := n / d
  let hits (digits : Nat) : Bool := ofDecimal false digits unit == finite false m q
  match hits low, hits (low + 1) with
  | true, true => some (roundedQuotient n d, unit)
  | true, false => some (low, unit)
  | false, true => some (low + 1, unit)
  | false, false => none

/-- The fewest digits and the exponent of ten that read back as the positive number. -/
def shortest (m : Nat) (q : Int) : Nat × Int :=
  ((List.range 17).findSome? fun k => numeralWith? m q (k + 1)).getD (0, 0)

/-- Writes a positive or zero number: positionally where the first digit stands for `10 ^ -4` up
to `10 ^ 15`, otherwise with an exponent of at least two digits. A point always shows in a
positional numeral. -/
def magnitudeText (m : Nat) (q : Int) : List Char :=
  if m == 0 then ['0', '.', '0']
  else
    let (digits, unit) := shortest m q
    let all := natDigits digits
    let point : Int := all.length + unit
    let ds := (all.reverse.dropWhile (· == '0')).reverse
    let count : Int := ds.length
    if -4 < point && point ≤ 16 then
      if point ≤ 0 then '0' :: '.' :: (List.replicate (-point).toNat '0' ++ ds)
      else if count ≤ point then ds ++ List.replicate (point - count).toNat '0' ++ ['.', '0']
      else ds.take point.toNat ++ '.' :: ds.drop point.toNat
    else
      let e := point - 1
      let mantissa := match ds with
        | d :: d' :: rest => d :: '.' :: d' :: rest
        | short => short
      let eDigits := natDigits e.natAbs
      mantissa ++ 'e' :: (if e < 0 then '-' else '+') ::
        (if eDigits.length < 2 then '0' :: eDigits else eDigits)

/-- Writes a number; the texts of the values that have no digits are given. -/
def text (nanText infinityText : String) : Binary64 → List Char
  | nan => nanText.toList
  | infinite negative => (if negative then ['-'] else []) ++ infinityText.toList
  | finite negative m q => (if negative then ['-'] else []) ++ magnitudeText m q

end Binary64

end TypeFacts.Number
