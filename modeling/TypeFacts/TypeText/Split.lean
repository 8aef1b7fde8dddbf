import TypeFacts.Text.Basic

/-!
# Splitting outside brackets

A type text is cut at a separator wherever no bracket is open. The four kinds of brackets are
counted together, and a closing bracket without an opening one counts for nothing.

Main statement: every part is no longer than the text (`length_le_of_mem_splitOutside`).
-/

namespace TypeFacts.TypeText

/-- The brackets that open a nested part. -/
def isOpener (c : Char) : Bool :=
  c == '<' || c == '(' || c == '{' || c == '['

/-- The brackets that close a nested part. -/
def isCloser (c : Char) : Bool :=
  c == '>' || c == ')' || c == '}' || c == ']'

/-- The number of open brackets after a character. -/
def depthAfter (depth : Nat) (c : Char) : Nat :=
  if isOpener c then depth + 1 else if isCloser c then depth - 1 else depth

/-- The pieces of a text between the separators at depth zero, as they stand. -/
def pieces (sep : Char) : Nat → List Char → List (List Char)
  | _, [] => [[]]
  | depth, c :: cs =>
    let after := depthAfter depth c
    if c == sep && after == 0 then [] :: pieces sep after cs
    else
      match pieces sep after cs with
      | [] => [[c]]
      | piece :: rest => (c :: piece) :: rest

/-- Splits a text at the separators outside of all brackets and trims the parts. -/
def splitOutside (sep : Char) (cs : List Char) : List (List Char) :=
  (pieces sep 0 cs).map Text.trim

/-- `splitOutside` on strings. A separator that is not a single character occurs nowhere as one, so
it leaves the text whole. -/
def splitTopLevel (text separator : String) : List String :=
  match separator.toList with
  | [sep] => (splitOutside sep text.toList).map String.ofList
  | _ => [Text.trimmed text]

/-- The number of characters of several texts. -/
def totalLength : List (List Char) → Nat
  | [] => 0
  | p :: ps => p.length + totalLength ps

theorem pieces_ne_nil (sep : Char) (depth : Nat) (cs : List Char) : pieces sep depth cs ≠ [] := by
  cases cs with
  | nil => simp [pieces]
  | cons c cs =>
    simp only [pieces]
    split
    · simp
    · split <;> simp

/-- The pieces hold every character of the text but the separators they were cut at. -/
theorem length_pieces (sep : Char) (depth : Nat) (cs : List Char) :
    totalLength (pieces sep depth cs) + (pieces sep depth cs).length = cs.length + 1 := by
  induction cs generalizing depth with
  | nil => simp [pieces, totalLength]
  | cons c cs ih =>
    have h := ih (depthAfter depth c)
    simp only [pieces]
    split
    · simp only [totalLength, List.length_cons, List.length_nil]
      omega
    · split
      · next heq => exact absurd heq (pieces_ne_nil _ _ _)
      · next piece rest heq =>
        rw [heq] at h
        simp only [totalLength, List.length_cons] at h ⊢
        omega

private theorem length_le_totalLength {p : List Char} :
    ∀ {ps : List (List Char)}, p ∈ ps → p.length ≤ totalLength ps
  | q :: qs, h => by
    rcases List.mem_cons.1 h with rfl | h
    · simp [totalLength]
    · have := length_le_totalLength h
      simp only [totalLength]
      omega

@[simp] theorem length_splitOutside (sep : Char) (cs : List Char) :
    (splitOutside sep cs).length = (pieces sep 0 cs).length := by
  simp [splitOutside]

/-- The length of a part and the number of cuts add up to at most the length of the text. -/
theorem length_add_cuts_le {sep : Char} {cs p : List Char} (h : p ∈ splitOutside sep cs) :
    p.length + (splitOutside sep cs).length ≤ cs.length + 1 := by
  obtain ⟨q, hq, rfl⟩ := List.mem_map.1 h
  have h₁ := length_le_totalLength hq
  have h₂ := length_pieces sep 0 cs
  have h₃ := Text.length_trim_le q
  rw [length_splitOutside]
  omega

/-- No part is longer than the text. -/
theorem length_le_of_mem_splitOutside {sep : Char} {cs p : List Char}
    (h : p ∈ splitOutside sep cs) : p.length ≤ cs.length := by
  have h₁ := length_add_cuts_le h
  have h₂ : 0 < (splitOutside sep cs).length := List.length_pos_of_mem h
  omega

end TypeFacts.TypeText
