import TypeFacts.Text.Basic

/-!
# Wildcards

A wildcard describes names: `*` stands for any characters, `?` for one, and brackets for one of a
set, or with `!` in front for one that is not in the set. A set may have ranges; a range whose ends
are in the wrong order is empty. A bracket that is never closed stands for itself.
-/

namespace TypeFacts

/-- One piece of a wildcard. -/
inductive WildPiece where
  /-- Any number of characters. -/
  | star
  /-- Any one character. -/
  | anyChar
  /-- A character as it is. -/
  | exactly (c : Char)
  /-- A character of one of the ranges, or with the flag a character of none. -/
  | oneOf (negated : Bool) (ranges : List (Char × Char))
  deriving DecidableEq, Repr

namespace Wildcard

/-! ### Sets -/

/-- Takes a character off the front where it stands there. -/
def takeMark (mark : Char) (cs : List Char) : List Char × List Char :=
  if cs.head? == some mark then ([mark], cs.tail) else ([], cs)

theorem length_takeMark_le (mark : Char) (cs : List Char) :
    (takeMark mark cs).2.length ≤ cs.length := by
  unfold takeMark
  split <;> simp

/-- What stands between brackets, up to the closing one, and what follows. An exclamation mark, and
then a closing bracket, may begin the set. -/
def bracketBody? (cs : List Char) : Option (List Char × List Char) :=
  let (mark, cs) := takeMark '!' cs
  let (bracket, cs) := takeMark ']' cs
  (Text.cutAt ']' cs).map fun (body, rest) => (mark ++ bracket ++ body, rest)

theorem length_le_of_cutAt {sep : Char} {cs before after : List Char}
    (h : Text.cutAt sep cs = some (before, after)) : after.length ≤ cs.length := by
  have hle := Text.length_dropWhile_le (· != sep) cs
  unfold Text.cutAt at h
  split at h
  · cases h
  · next heq =>
    simp only [Option.some.injEq, Prod.mk.injEq] at h
    rw [heq, h.2] at hle
    simp only [List.length_cons] at hle
    omega

theorem length_le_of_bracketBody? {cs body rest : List Char}
    (h : bracketBody? cs = some (body, rest)) : rest.length ≤ cs.length := by
  unfold bracketBody? at h
  simp only [Option.map_eq_some_iff] at h
  obtain ⟨⟨p, q⟩, hpq, heq⟩ := h
  simp only [Prod.mk.injEq] at heq
  have h₁ := length_takeMark_le '!' cs
  have h₂ := length_takeMark_le ']' (takeMark '!' cs).2
  have h₃ := length_le_of_cutAt hpq
  rw [← heq.2]
  omega

/-- A character of a set, or the sign that makes a range of its neighbours. -/
inductive SetToken where
  | char (c : Char)
  | to
  deriving DecidableEq, Repr

/-- Cuts a set at the hyphens that make ranges. A hyphen makes one when at least `least` characters
stand before it since the last; behind the first such hyphen at least two have to. -/
def chunks (least : Nat) (chunk : List Char) : List Char → List (List Char)
  | [] => [chunk.reverse]
  | c :: cs =>
    if c == '-' && least ≤ chunk.length then chunk.reverse :: chunks 2 [] cs
    else chunks least (c :: chunk) cs

/-- A hyphen at the very end makes no range. -/
def closeChunks : List (List Char) → List (List Char)
  | [] => []
  | [chunk] => [chunk]
  | [chunk, []] => [chunk ++ ['-']]
  | chunk :: rest => chunk :: closeChunks rest

/-- Takes out the ranges whose ends are in the wrong order, the last one first. -/
def dropEmptyRanges : List (List Char) → List (List Char)
  | [] => []
  | chunk :: rest =>
    match dropEmptyRanges rest with
    | [] => [chunk]
    | next :: later =>
      match chunk.getLast?, next.head? with
      | some low, some high =>
        if high < low then (chunk.dropLast ++ next.tail) :: later else chunk :: next :: later
      | _, _ => chunk :: next :: later

/-- The tokens of the chunks of a set. -/
def setTokens : List (List Char) → List SetToken
  | [] => []
  | [chunk] => chunk.map .char
  | chunk :: rest => chunk.map .char ++ .to :: setTokens rest

/-- The ranges of the tokens of a set. -/
def rangesOf : List SetToken → List (Char × Char)
  | [] => []
  | .char low :: .to :: .char high :: rest => (low, high) :: rangesOf rest
  | .char c :: rest => (c, c) :: rangesOf rest
  | .to :: rest => ('-', '-') :: rangesOf rest

/-- The piece that a set stands for. -/
def setPiece (body : List Char) : WildPiece :=
  let cut := if body.contains '-' then
      dropEmptyRanges (closeChunks (chunks (if body.head? == some '!' then 2 else 1) [] body))
    else [body]
  match setTokens cut with
  | [] => .oneOf false []
  | .char '!' :: rest => if rest.isEmpty then .anyChar else .oneOf true (rangesOf rest)
  | tokens => .oneOf false (rangesOf tokens)

/-! ### Matching -/

/-- The pieces of a wildcard. -/
def pieces (cs : List Char) : List WildPiece :=
  match cs with
  | [] => []
  | '*' :: rest => .star :: pieces rest
  | '?' :: rest => .anyChar :: pieces rest
  | '[' :: rest =>
    match _h : bracketBody? rest with
    | some (body, after) => setPiece body :: pieces after
    | none => .exactly '[' :: pieces rest
  | c :: rest => .exactly c :: pieces rest
termination_by cs.length
decreasing_by
  · simp
  · simp
  · have := length_le_of_bracketBody? _h
    simp only [List.length_cons]
    omega
  · simp
  · simp

/-- Does the piece admit the character? -/
def admits : WildPiece → Char → Bool
  | .star, _ => true
  | .anyChar, _ => true
  | .exactly d, c => c == d
  | .oneOf negated ranges, c => (ranges.any fun r => r.1 ≤ c && c ≤ r.2) != negated

/-- For each place of a row, does it or one behind it hold? -/
def anyFrom : List Bool → List Bool
  | [] => []
  | b :: bs =>
    let rest := anyFrom bs
    (b || rest.headD false) :: rest

/-- Do the pieces match the ends of a text? The ends are listed from the whole text down to the
empty one, so that a row takes one pass over the row for the pieces behind. -/
def fitsEnds : List WildPiece → List Char → List Bool
  | [], cs => cs.map (fun _ => false) ++ [true]
  | .star :: ps, cs => anyFrom (fitsEnds ps cs)
  | p :: ps, cs => List.zipWith (fun c b => admits p c && b) cs (fitsEnds ps cs).tail ++ [false]

/-- Do the pieces match the characters? -/
def fits (ps : List WildPiece) (cs : List Char) : Bool :=
  (fitsEnds ps cs).headD false

/-- The row of a piece other than a star. -/
theorem fitsEnds_of_ne_star {p : WildPiece} (hp : p ≠ .star) (ps : List WildPiece)
    (cs : List Char) :
    fitsEnds (p :: ps) cs =
      List.zipWith (fun c b => admits p c && b) cs (fitsEnds ps cs).tail ++ [false] := by
  cases p with
  | star => exact absurd rfl hp
  | anyChar => rfl
  | exactly d => rfl
  | oneOf negated ranges => rfl

/-- A row begins with the whole text. -/
theorem fitsEnds_eq_cons (ps : List WildPiece) (cs : List Char) :
    fitsEnds ps cs = fits ps cs :: (fitsEnds ps cs).tail := by
  have hne : fitsEnds ps cs ≠ [] := by
    induction ps with
    | nil => simp [fitsEnds]
    | cons p ps ih =>
      by_cases hp : p = .star
      · subst hp
        cases h : fitsEnds ps cs with
        | nil => exact absurd h ih
        | cons b bs => simp [fitsEnds, h, anyFrom]
      · simp [fitsEnds_of_ne_star hp]
  cases h : fitsEnds ps cs with
  | nil => exact absurd h hne
  | cons b bs => simp [fits, h]

/-- The row of a text goes on with the row of its tail. -/
theorem tail_fitsEnds_cons (ps : List WildPiece) (c : Char) (cs : List Char) :
    (fitsEnds ps (c :: cs)).tail = fitsEnds ps cs := by
  induction ps with
  | nil => rfl
  | cons p ps ih =>
    by_cases hp : p = .star
    · subst hp
      rw [fitsEnds, fitsEnds_eq_cons ps (c :: cs), ih, anyFrom, fitsEnds]
      rfl
    · rw [fitsEnds_of_ne_star hp, fitsEnds_of_ne_star hp, ih, fitsEnds_eq_cons ps cs]
      rfl

/-- The row of the empty text has one place. -/
theorem tail_fitsEnds_nil (ps : List WildPiece) : (fitsEnds ps []).tail = [] := by
  induction ps with
  | nil => rfl
  | cons p ps ih =>
    by_cases hp : p = .star
    · subst hp
      rw [fitsEnds, fitsEnds_eq_cons ps [], ih]
      rfl
    · rw [fitsEnds_of_ne_star hp]
      rfl

/-- No pieces match the empty text only. -/
theorem fits_nil (cs : List Char) : fits [] cs = cs.isEmpty := by
  cases cs <;> rfl

/-- A star matches nothing at the end of a text. -/
theorem fits_star_nil (ps : List WildPiece) : fits (.star :: ps) [] = fits ps [] := by
  rw [fits, fitsEnds, fitsEnds_eq_cons ps [], tail_fitsEnds_nil]
  simp [anyFrom]

/-- A star may match nothing, or one character and go on. -/
theorem fits_star_cons (ps : List WildPiece) (c : Char) (cs : List Char) :
    fits (.star :: ps) (c :: cs) = (fits ps (c :: cs) || fits (.star :: ps) cs) := by
  rw [fits, fitsEnds, fitsEnds_eq_cons ps (c :: cs), tail_fitsEnds_cons]
  rfl

/-- Every other piece matches one character that it admits. -/
theorem fits_cons_cons {p : WildPiece} (hp : p ≠ .star) (ps : List WildPiece) (c : Char)
    (cs : List Char) : fits (p :: ps) (c :: cs) = (admits p c && fits ps cs) := by
  rw [fits, fitsEnds_of_ne_star hp, tail_fitsEnds_cons, fitsEnds_eq_cons ps cs]
  rfl

end Wildcard

end TypeFacts
