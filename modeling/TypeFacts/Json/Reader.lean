import TypeFacts.Json.Basic

/-!
# Reading JSON

The reader follows the grammar of JSON with three more numerals, `NaN`, `Infinity` and `-Infinity`.
It stops at the first trouble and says where: each reading function gives the number of characters
that are left at that place, and `Json.read` turns it into a position, a line and a column.

Reading a value takes fuel, two units for each bracket, comma or item that may still come; a text
has no more of them than characters, so the fuel that `Json.read` gives is enough.
-/

namespace TypeFacts.Json

/-- What is wrong with a text. -/
inductive Trouble where
  | expectingValue
  | expectingName
  | expectingColon
  | expectingComma
  | extraData
  | unterminated
  | controlCharacter
  | badEscape
  | badUnitEscape
  | byteOrderMark
  deriving DecidableEq, Repr

/-- The wording of a trouble. -/
def Trouble.message : Trouble → String
  | expectingValue => "Expecting value"
  | expectingName => "Expecting property name enclosed in double quotes"
  | expectingColon => "Expecting ':' delimiter"
  | expectingComma => "Expecting ',' delimiter"
  | extraData => "Extra data"
  | unterminated => "Unterminated string starting at"
  | controlCharacter => "Invalid control character at"
  | badEscape => "Invalid \\escape"
  | badUnitEscape => "Invalid \\uXXXX escape"
  | byteOrderMark => "Unexpected UTF-8 BOM (decode using utf-8-sig)"

/-- Why reading stops. -/
inductive Stop where
  /-- A trouble and the number of characters left where it shows. -/
  | malformed (trouble : Trouble) (left : Nat)
  /-- A whole number with more digits than are read. -/
  | longNumeral (digits : Nat)
  deriving DecidableEq, Repr

/-- A trouble and its place in the text. -/
structure Malformed where
  trouble : Trouble
  /-- Characters in front of the place. -/
  position : Nat
  /-- Line, counted from one. -/
  line : Nat
  /-- Column, counted from one. -/
  column : Nat
  deriving DecidableEq, Repr

/-- The wording of a trouble with its place. -/
def Malformed.message (m : Malformed) : String :=
  m.trouble.message ++ ": line " ++ Number.natText m.line ++ " column "
    ++ Number.natText m.column ++
    " (char " ++ Number.natText m.position ++ ")"

/-- Why a text cannot be read. -/
inductive Failure where
  /-- The text does not follow the grammar. -/
  | malformed (reason : Malformed)
  /-- The text has a whole number with more digits than are read. -/
  | longNumeral (digits : Nat)
  deriving DecidableEq, Repr

/-- The wording of a failure. -/
def Failure.message : Failure → String
  | malformed reason => reason.message
  | longNumeral digits => Number.digitLimitMessage digits

/-- The word for the kind of a failure. -/
def Failure.kind : Failure → String
  | malformed _ => "JSONDecodeError"
  | longNumeral _ => "ValueError"

/-- The blanks of JSON. -/
def isSpace (c : Char) : Bool :=
  c == ' ' || c == '\t' || c == '\n' || c == '\r'

/-- Drops blanks in front. -/
def skipSpace (cs : List Char) : List Char :=
  cs.dropWhile isSpace

/-! ### Quoted texts -/

/-- The number of four hexadecimal digits in front, and what follows them. -/
def unit? : List Char → Option (Nat × List Char)
  | a :: b :: c :: d :: rest => do
    let a ← Number.hexValue? a
    let b ← Number.hexValue? b
    let c ← Number.hexValue? c
    let d ← Number.hexValue? d
    return (a * 0x1000 + b * 0x100 + c * 0x10 + d, rest)
  | _ => none

/-- The character that a letter after a backslash stands for. -/
def simpleEscape? : Char → Option Char
  | '"' => some '"'
  | '\\' => some '\\'
  | '/' => some '/'
  | 'b' => some (Char.ofNat 0x08)
  | 'f' => some (Char.ofNat 0x0C)
  | 'n' => some '\n'
  | 'r' => some '\r'
  | 't' => some '\t'
  | _ => none

/-- Is the number the first unit of a pair that stands for one character? -/
def isHighUnit (n : Nat) : Bool :=
  0xD800 ≤ n && n ≤ 0xDBFF

/-- Is the number the second unit of a pair that stands for one character? -/
def isLowUnit (n : Nat) : Bool :=
  0xDC00 ≤ n && n ≤ 0xDFFF

/-- The character of a code unit on its own; half a pair stands for no character. -/
def unitChar (n : Nat) : Char :=
  if isHighUnit n || isLowUnit n then Char.ofNat 0xFFFD else Char.ofNat n

/-- Reads the characters after a `\u`: one unit, or a pair of units for one character. At least one
character has to follow the digits. -/
def unitEscape? (cs : List Char) : Except Stop (Char × List Char) :=
  match unit? cs with
  | none => .error (.malformed .badUnitEscape (cs.length + 1))
  | some (_, []) => .error (.malformed .badUnitEscape (cs.length + 1))
  | some (high, rest) =>
    if isHighUnit high then
      match rest with
      | '\\' :: 'u' :: after =>
        if 4 < after.length then
          match unit? after with
          | none => .error (.malformed .badUnitEscape (after.length + 1))
          | some (low, rest') =>
            if isLowUnit low then
              .ok (Char.ofNat (0x10000 + (high - 0xD800) * 0x400 + (low - 0xDC00)), rest')
            else .ok (unitChar high, rest)
        else .ok (unitChar high, rest)
      | _ => .ok (unitChar high, rest)
    else .ok (unitChar high, rest)

/-- Reads the characters after an opening quote, up to the closing one; `start` is the number of
characters left at the opening quote. -/
def quotedBody (start : Nat) : Nat → List Char → Except Stop (List Char × List Char)
  | 0, _ => .error (.malformed .unterminated start)
  | _ + 1, [] => .error (.malformed .unterminated start)
  | fuel + 1, c :: cs =>
    if c == '"' then .ok ([], cs)
    else if c == '\\' then
      match cs with
      | [] => .error (.malformed .unterminated start)
      | 'u' :: rest => do
        let (x, rest) ← unitEscape? rest
        let (body, rest) ← quotedBody start fuel rest
        return (x :: body, rest)
      | e :: rest =>
        match simpleEscape? e with
        | none => .error (.malformed .badEscape (cs.length + 1))
        | some x => do
          let (body, rest) ← quotedBody start fuel rest
          return (x :: body, rest)
    else if c.toNat ≤ 0x1F then .error (.malformed .controlCharacter (cs.length + 1))
    else do
      let (body, rest) ← quotedBody start fuel cs
      return (c :: body, rest)

/-- Reads a quoted text whose opening quote has just been taken. -/
def quotedText (cs : List Char) : Except Stop (String × List Char) := do
  let (body, rest) ← quotedBody (cs.length + 1) (cs.length + 1) cs
  return (String.ofList body, rest)

/-! ### Numerals -/

/-- The digits of a fraction in front: a point and at least one digit. -/
def fraction? (cs : List Char) : Option (List Char × List Char) :=
  match cs with
  | '.' :: d :: rest =>
    if d.isDigit then some ((d :: rest).takeWhile Char.isDigit, (d :: rest).dropWhile Char.isDigit)
    else none
  | _ => none

/-- The exponent in front: a mark, an optional sign and at least one digit. -/
def exponent? (cs : List Char) : Option (Int × List Char) :=
  match cs with
  | mark :: rest =>
    if mark == 'e' || mark == 'E' then
      let (negative, digits) := match rest with
        | '-' :: r => (true, r)
        | '+' :: r => (false, r)
        | r => (false, r)
      match digits.takeWhile Char.isDigit with
      | [] => none
      | ds =>
        let n : Int := Number.ofDigits ds
        some (if negative then -n else n, digits.dropWhile Char.isDigit)
    else none
  | [] => none

/-- Reads a numeral that begins after an optional minus sign: a whole part without leading zeros,
then a fraction and an exponent, either of which makes it a floating point number. -/
def numeral? (negative : Bool) (cs : List Char) : Option (Json × List Char) :=
  let whole := match cs with
    | '0' :: rest => some (['0'], rest)
    | c :: rest =>
      if c.isDigit then
        some ((c :: rest).takeWhile Char.isDigit, (c :: rest).dropWhile Char.isDigit)
      else none
    | [] => none
  whole.map fun (ds, rest) =>
    match fraction? rest, exponent? ((fraction? rest).elim rest (·.2)) with
    | none, none =>
      let n : Int := Number.ofDigits ds
      (int (if negative then -n else n), rest)
    | frac, exp =>
      let fs := frac.elim [] (·.1)
      let e := exp.elim 0 (·.1)
      (float (Number.Binary64.ofDecimal negative (Number.ofDigits (ds ++ fs)) (e - fs.length)),
        exp.elim (frac.elim rest (·.2)) (·.2))

/-- The digits of the whole number in front, a numeral without a fraction or an exponent. -/
def wholeDigits (cs : List Char) : List Char :=
  let body := match cs with
    | '-' :: rest => rest
    | rest => rest
  let after := body.dropWhile Char.isDigit
  if body.head? == some '0' || (fraction? after).isSome || (exponent? after).isSome then []
  else body.takeWhile Char.isDigit

/-! ### Values -/

/-- What follows a word in front of a text. -/
def afterWord? : List Char → List Char → Option (List Char)
  | [], cs => some cs
  | _ :: _, [] => none
  | w :: ws, c :: cs => if w = c then afterWord? ws cs else none

/-- Reads a value without brackets or quotes. -/
def plain? (cs : List Char) : Option (Json × List Char) :=
  match cs with
  | 'n' :: rest => (afterWord? "ull".toList rest).map fun r => (null, r)
  | 't' :: rest => (afterWord? "rue".toList rest).map fun r => (bool true, r)
  | 'f' :: rest => (afterWord? "alse".toList rest).map fun r => (bool false, r)
  | 'N' :: rest => (afterWord? "aN".toList rest).map fun r => (float .nan, r)
  | 'I' :: rest => (afterWord? "nfinity".toList rest).map fun r => (float (.infinite false), r)
  | '-' :: rest =>
    match afterWord? "Infinity".toList rest with
    | some r => some (float (.infinite true), r)
    | none => numeral? true rest
  | _ => numeral? false cs

mutual

/-- Reads a value. -/
def value (fuel : Nat) (cs : List Char) : Except Stop (Json × List Char) :=
  match fuel, cs with
  | _, '"' :: rest => do
    let (s, rest) ← quotedText rest
    return (str s, rest)
  | fuel + 1, '[' :: rest =>
    match skipSpace rest with
    | ']' :: after => .ok (arr [], after)
    | first => do
      let (xs, after) ← items fuel first
      return (arr xs, after)
  | fuel + 1, '{' :: rest =>
    match skipSpace rest with
    | '}' :: after => .ok (obj [], after)
    | first => do
      let (fs, after) ← fields fuel [] first
      return (obj fs, after)
  | _, _ =>
    let digits := (wholeDigits cs).length
    if Number.digitLimit < digits then .error (.longNumeral digits)
    else
      match plain? cs with
      | some r => .ok r
      | none => .error (.malformed .expectingValue cs.length)
termination_by structural fuel

/-- Reads the items of a list up to its closing bracket. -/
def items (fuel : Nat) (cs : List Char) : Except Stop (List Json × List Char) :=
  match fuel with
  | 0 => .error (.malformed .expectingValue cs.length)
  | fuel + 1 => do
    let (x, rest) ← value fuel cs
    match skipSpace rest with
    | ']' :: after => return ([x], after)
    | ',' :: more =>
      let (xs, after) ← items fuel (skipSpace more)
      return (x :: xs, after)
    | rest => .error (.malformed .expectingComma rest.length)
termination_by structural fuel

/-- Reads the fields of an object up to its closing bracket, after those read before. -/
def fields (fuel : Nat) (before : List (String × Json)) (cs : List Char) :
    Except Stop (List (String × Json) × List Char) :=
  match fuel with
  | 0 => .error (.malformed .expectingName cs.length)
  | fuel + 1 =>
    match cs with
    | '"' :: rest => do
      let (name, rest) ← quotedText rest
      match skipSpace rest with
      | ':' :: rest =>
        let (x, rest) ← value fuel (skipSpace rest)
        let known := Pairs.set name x before
        match skipSpace rest with
        | '}' :: after => return (known, after)
        | ',' :: more => fields fuel known (skipSpace more)
        | rest => .error (.malformed .expectingComma rest.length)
      | rest => .error (.malformed .expectingColon rest.length)
    | _ => .error (.malformed .expectingName cs.length)
termination_by structural fuel

end

/-- Reads a whole text as one value. -/
def readChars (cs : List Char) : Except Stop Json :=
  match cs with
  | '\ufeff' :: _ => .error (.malformed .byteOrderMark cs.length)
  | _ => do
    let (x, rest) ← value (2 * cs.length + 2) (skipSpace cs)
    match skipSpace rest with
    | [] => return x
    | rest => .error (.malformed .extraData rest.length)

/-- The failure that a stop makes of reading a text. -/
def Stop.locate (cs : List Char) : Stop → Failure
  | malformed trouble left =>
    let position := cs.length - left
    let before := cs.take position
    .malformed
      { trouble := trouble
        position := position
        line := before.count '\n' + 1
        column := (before.reverse.takeWhile (· != '\n')).length + 1 }
  | longNumeral digits => .longNumeral digits

/-- Reads a whole text as one value. -/
def read (text : String) : Except Failure Json :=
  (readChars text.toList).mapError (Stop.locate text.toList)

end TypeFacts.Json
