import TypeFacts.Text.CaseTable
import TypeFacts.Text.Class

/-!
# Letter case

`lower` writes a text in lower case by the rules of Unicode 14: most letters have one partner, the
dotted capital I becomes a small i and a combining dot, and a capital sigma becomes the final form
at the end of a word. Names of classes, functions and tags are compared through it. `asciiLower`
changes only the letters A to Z; keywords are compared through it, as no letter beyond ASCII has a
partner that occurs in one.
-/

namespace TypeFacts.Text

/-- Lower case of the letters A to Z; every other character stays. -/
def asciiLower (s : String) : String :=
  String.ofList (s.toList.map Char.toLower)

/-- The lower-case partner of a letter, or the character itself. -/
def lowerChar (c : Char) : Char :=
  let n := c.toNat
  if n < 0x80 then c.toLower
  else
    match lowerRuns.find? fun (first, last, step, _) =>
        first ≤ n && n ≤ last && (n - first) % step == 0 with
    | some (_, _, _, shift) => Char.ofNat (n + shift).toNat
    | none => c

/-- Is the first character that is not passed over a letter with a case? -/
def meetsCased (cs : List Char) : Bool :=
  match cs.dropWhile fun c => inRanges caseIgnorableRanges c.toNat with
  | [] => false
  | c :: _ => inRanges casedRanges c.toNat

/-- Lower case of a text that follows the characters of `before`, the nearest first. -/
def lowerAfter (before : List Char) : List Char → List Char
  | [] => []
  | c :: cs =>
    let small :=
      if c.toNat == 0x3A3 then
        [Char.ofNat (if meetsCased before && !meetsCased cs then 0x3C2 else 0x3C3)]
      else if c.toNat == 0x130 then ['i', Char.ofNat 0x307]
      else [lowerChar c]
    small ++ lowerAfter (c :: before) cs

/-- A text in lower case. -/
def lower (s : String) : String :=
  String.ofList (lowerAfter [] s.toList)

/-- Are the two names the same up to letter case? -/
def sameIgnoringCase (a b : String) : Bool :=
  lower a == lower b

/-- Does a character stand for the given small ASCII letter when case is ignored? The letter i also
takes the dotless and the dotted form. -/
def matchesLetter (letter c : Char) : Bool :=
  lowerChar c == letter || (letter == 'i' && (c.toNat == 0x130 || c.toNat == 0x131))

/-- Does a text begin with the given small ASCII letters when case is ignored? Gives
what follows. -/
def dropWordIgnoringCase : List Char → List Char → Option (List Char)
  | [], cs => some cs
  | _ :: _, [] => none
  | l :: ls, c :: cs => if matchesLetter l c then dropWordIgnoringCase ls cs else none

end TypeFacts.Text
