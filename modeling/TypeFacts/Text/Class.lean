import TypeFacts.Text.WordTable
import TypeFacts.Text.DigitTable

/-!
# Character classes

The four classes of characters that type texts and doc comments are scanned by: blanks, word
characters, decimal digits and line ends. Each test answers ASCII directly and looks every other
character up in a table of ranges.
-/

namespace TypeFacts.Text

/-- Does some range of the table hold the code point? -/
def inRanges (table : List (Nat × Nat)) (n : Nat) : Bool :=
  table.any fun r => r.1 ≤ n && n ≤ r.2

/-- Inclusive code point ranges of the blanks beyond ASCII. -/
def blankRanges : List (Nat × Nat) :=
  [(0x85, 0x85), (0xA0, 0xA0), (0x1680, 0x1680), (0x2000, 0x200A), (0x2028, 0x2029),
    (0x202F, 0x202F), (0x205F, 0x205F), (0x3000, 0x3000)]

/-- Blanks are what trimming removes and what separates words: spaces of every width, tabs, line
ends and the four information separators. -/
def isBlank (c : Char) : Bool :=
  let n := c.toNat
  if n < 0x80 then (0x09 ≤ n && n ≤ 0x0D) || (0x1C ≤ n && n ≤ 0x20) else inRanges blankRanges n

/-- Word characters are letters, numerals and the underscore. -/
def isWord (c : Char) : Bool :=
  if c.toNat < 0x80 then c.isAlphanum || c == '_' else inRanges wordRanges c.toNat

/-- The value of a decimal digit of any script. -/
def digitValue? (c : Char) : Option Nat :=
  let n := c.toNat
  if n < 0x80 then
    if c.isDigit then some (n - '0'.toNat) else none
  else
    (digitRanges.find? fun r => r.1 ≤ n && n ≤ r.2).map fun r => (n - r.1) % 10

/-- Is the character a decimal digit of some script? -/
def isDecimal (c : Char) : Bool :=
  (digitValue? c).isSome

/-- The characters that end a line of text. -/
def isLineEnd (c : Char) : Bool :=
  let n := c.toNat
  (0x0A ≤ n && n ≤ 0x0D) || (0x1C ≤ n && n ≤ 0x1E) || n == 0x85 || n == 0x2028 || n == 0x2029

/-- The number that a row of decimal digits stands for; other characters count as zero. -/
def decimalValue (cs : List Char) : Nat :=
  cs.foldl (fun n c => 10 * n + (digitValue? c).getD 0) 0

end TypeFacts.Text
