import TypeFacts.Text.Class

/-!
# Trimming, splitting and sorting

Texts are scanned as lists of characters. Trimming drops blanks from the ends, `splitAt` cuts at
every character of a class, and `words` keeps the non-empty pieces between blanks.

Main statement: a trimmed text is no longer than the text (`length_trim_le`).
-/

namespace TypeFacts.Text

/-! ### Trimming -/

/-- Drops the blanks in front. -/
def trimLeft (cs : List Char) : List Char :=
  cs.dropWhile isBlank

/-- Drops the blanks at the end. -/
def trimRight (cs : List Char) : List Char :=
  (cs.reverse.dropWhile isBlank).reverse

/-- Drops the blanks at both ends. -/
def trim (cs : List Char) : List Char :=
  trimRight (trimLeft cs)

/-- `trim` on strings. -/
def trimmed (s : String) : String :=
  String.ofList (trim s.toList)

/-- Drops every backslash in front: an absolute name becomes a plain one. -/
def dropBackslashes (cs : List Char) : List Char :=
  cs.dropWhile (· == '\\')

/-- `dropBackslashes` on strings. -/
def withoutBackslashes (s : String) : String :=
  String.ofList (dropBackslashes s.toList)

/-- A text that has characters. -/
def nonEmpty? : Option String → Option String
  | some "" => none
  | text => text

private theorem length_dropWhile_le_length {α : Type} (p : α → Bool) :
    ∀ xs : List α, (xs.dropWhile p).length ≤ xs.length
  | [] => Nat.le_refl _
  | x :: xs => by
    simp only [List.dropWhile]
    split
    · exact Nat.le_succ_of_le (length_dropWhile_le_length p xs)
    · exact Nat.le_refl _

/-- Dropping from the front never lengthens a list. -/
theorem length_dropWhile_le {α : Type} (p : α → Bool) (xs : List α) :
    (xs.dropWhile p).length ≤ xs.length :=
  length_dropWhile_le_length p xs

theorem length_trimRight_le (cs : List Char) : (trimRight cs).length ≤ cs.length := by
  have h := length_dropWhile_le isBlank cs.reverse
  simpa [trimRight] using h

/-- A trimmed text is no longer than the text. -/
theorem length_trim_le (cs : List Char) : (trim cs).length ≤ cs.length :=
  Nat.le_trans (length_trimRight_le _) (length_dropWhile_le isBlank cs)

/-! ### Splitting -/

/-- Cuts a text at every character of the class; the pieces may be empty, and there is always at
least one. -/
def splitAt (p : Char → Bool) : List Char → List (List Char)
  | [] => [[]]
  | c :: cs =>
    if p c then [] :: splitAt p cs
    else
      match splitAt p cs with
      | [] => [[c]]
      | piece :: pieces => (c :: piece) :: pieces

/-- The maximal rows of non-blank characters, in order. -/
def words (cs : List Char) : List (List Char) :=
  (splitAt isBlank cs).filter fun w => !w.isEmpty

/-- Makes every line end a line feed. -/
def unifyLineEnds : List Char → List Char
  | '\r' :: '\n' :: cs => '\n' :: unifyLineEnds cs
  | '\r' :: cs => '\n' :: unifyLineEnds cs
  | c :: cs => c :: unifyLineEnds cs
  | [] => []

/-- The lines of a text, cut at line feeds. -/
def lines (cs : List Char) : List (List Char) :=
  splitAt (· == '\n') cs

/-- Cuts a text at the first occurrence of a character; `none` when it does not occur. -/
def cutAt (sep : Char) (cs : List Char) : Option (List Char × List Char) :=
  match cs.dropWhile (· != sep) with
  | [] => none
  | _ :: rest => some (cs.takeWhile (· != sep), rest)

/-- Cuts a text at the last occurrence of a character; `none` when it does not occur. -/
def cutAtLast (sep : Char) (cs : List Char) : Option (List Char × List Char) :=
  (cutAt sep cs.reverse).map fun (after, before) => (before.reverse, after.reverse)

/-! ### Sorting -/

/-- Puts a text in front of the first text of the list that is greater. -/
def insertSorted (s : String) : List String → List String
  | [] => [s]
  | t :: ts => if s < t then s :: t :: ts else t :: insertSorted s ts

/-- Texts in increasing order of code points; equal texts stay. -/
def sorted (texts : List String) : List String :=
  texts.foldr insertSorted []

/-- Texts joined by a separator. -/
def joined (separator : String) (texts : List String) : String :=
  String.intercalate separator texts

end TypeFacts.Text
