import TypeFacts.Number.Decimal
import TypeFacts.Text.Class
import TypeFacts.Text.PrintableTable

/-!
# Quoted texts in messages

A message quotes a text between single quotes, or between double quotes where it holds a single
quote and no double one. The quote in use and the backslash are escaped, line ends and tabs are
written with a letter, and every other character without a visible form is written by its number.
-/

namespace TypeFacts.Text

/-- Does the character have a visible form of its own? The plain space counts. -/
def isVisible (c : Char) : Bool :=
  let n := c.toNat
  if n < 0x80 then 0x20 ≤ n && n < 0x7F else !inRanges hiddenRanges n

/-- A character between the given quotes. -/
def literalChar (quote c : Char) : List Char :=
  if c == quote || c == '\\' then ['\\', c]
  else if c == '\n' then ['\\', 'n']
  else if c == '\r' then ['\\', 'r']
  else if c == '\t' then ['\\', 't']
  else if isVisible c then [c]
  else if c.toNat < 0x100 then '\\' :: 'x' :: Number.hexDigits 2 c.toNat
  else if c.toNat < 0x10000 then '\\' :: 'u' :: Number.hexDigits 4 c.toNat
  else '\\' :: 'U' :: Number.hexDigits 8 c.toNat

/-- The single quote. -/
def apostrophe : Char := Char.ofNat 0x27

/-- A text between quotes. -/
def literal (s : String) : String :=
  let cs := s.toList
  let quote := if cs.contains apostrophe && !cs.contains '"' then '"' else apostrophe
  String.ofList (quote :: (cs.flatMap (literalChar quote) ++ [quote]))

end TypeFacts.Text
