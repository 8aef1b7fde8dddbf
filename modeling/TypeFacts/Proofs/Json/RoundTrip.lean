import Mathlib.Data.List.TakeWhile
import Mathlib.Tactic.Common
import TypeFacts.Json.Reader
import TypeFacts.Json.Text

/-!
# Reading written JSON

A value without floating point numbers, whose objects have distinct names and whose whole numbers
are not longer than the reader takes, is read back from its indented text (`read_text`).

Every part of the proof is about a text with something behind it: digits (`numeral?_natDigits`), a
quoted text (`quotedText_quoted`), and values, items and fields, which are taken together because
they are written and read by functions that call each other (`ReadsBack`). A numeral ends only where
no digit, point or exponent follows, so what stands behind a value has to begin with none of these
(`Ends`).
-/

namespace TypeFacts

/-! ### Digits -/

namespace Number

/-- The characters of digits stand in a row behind zero. -/
theorem digitChar_toNat {d : Nat} (h : d < 10) : (digitChar d).toNat = '0'.toNat + d := by
  revert h
  revert d
  decide

theorem isDigit_digitChar {d : Nat} (h : d < 10) : (digitChar d).isDigit = true := by
  revert h
  revert d
  decide

/-- A number is written in digits only. -/
theorem isDigit_of_mem_natDigits {n : Nat} : ∀ c ∈ natDigits n, c.isDigit = true := by
  induction n using natDigits.induct with
  | case1 n h =>
    rw [natDigits, if_pos h]
    intro c hc
    rw [List.mem_singleton.mp hc]
    exact isDigit_digitChar h
  | case2 n h ih =>
    rw [natDigits, if_neg h]
    intro c hc
    rcases List.mem_append.mp hc with hc | hc
    · exact ih c hc
    · rw [List.mem_singleton.mp hc]
      exact isDigit_digitChar (Nat.mod_lt n (by decide))

/-- One more digit multiplies the number by ten and adds its value. -/
theorem ofDigits_concat (cs : List Char) (c : Char) :
    ofDigits (cs ++ [c]) = 10 * ofDigits cs + digitValue c := by
  simp [ofDigits]

/-- A digit has the value that it was made for. -/
theorem digitValue_digitChar {d : Nat} (h : d < 10) : digitValue (digitChar d) = d := by
  rw [digitValue, digitChar_toNat h, Nat.add_sub_cancel_left]

/-- The digits of a number stand for it. -/
@[simp] theorem ofDigits_natDigits (n : Nat) : ofDigits (natDigits n) = n := by
  induction n using natDigits.induct with
  | case1 n h =>
    rw [natDigits, if_pos h]
    simp [ofDigits, digitValue_digitChar h]
  | case2 n h ih =>
    rw [natDigits, if_neg h, ofDigits_concat, ih, digitValue_digitChar (Nat.mod_lt n (by decide))]
    omega

/-- Only zero has a zero in front of its digits, and that is all of them. -/
theorem natDigits_eq_or (n : Nat) :
    natDigits n = ['0'] ∨ ∃ c cs, natDigits n = c :: cs ∧ c ≠ '0' := by
  induction n using natDigits.induct with
  | case1 n h =>
    rw [natDigits, if_pos h]
    by_cases hc : digitChar n = '0'
    · exact Or.inl (by rw [hc])
    · exact Or.inr ⟨digitChar n, [], rfl, hc⟩
  | case2 n h ih =>
    have hne : natDigits (n / 10) ≠ ['0'] := fun heq => by
      have hzero := ofDigits_natDigits (n / 10)
      rw [heq, show ofDigits ['0'] = 0 by decide] at hzero
      omega
    obtain ⟨c, cs, hcs, hc⟩ := ih.resolve_left hne
    rw [natDigits, if_neg h, hcs]
    exact Or.inr ⟨c, cs ++ [digitChar (n % 10)], rfl, hc⟩

end Number

namespace Json

/-! ### Numerals -/

/-- What follows a value may not go on with a numeral. -/
def Ends (rest : List Char) : Prop :=
  ∀ c ∈ rest.head?, c.isDigit = false ∧ c ≠ '.' ∧ c ≠ 'e' ∧ c ≠ 'E'

section Numerals

variable {rest ds : List Char}

/-- Where a numeral ends there is no fraction. -/
theorem fraction?_of_ends (h : Ends rest) : fraction? rest = none := by
  unfold fraction?
  split
  · next d rest => exact absurd rfl (h '.' rfl).2.1
  · rfl

/-- Where a numeral ends there is no exponent. -/
theorem exponent?_of_ends (h : Ends rest) : exponent? rest = none := by
  cases rest with
  | nil => rfl
  | cons c rest =>
    obtain ⟨-, -, he, hE⟩ := h c rfl
    simp [exponent?, he, hE]

/-- The digits of a numeral are all that is taken as such. -/
theorem takeWhile_digits (hds : ∀ c ∈ ds, c.isDigit = true) (h : Ends rest) :
    (ds ++ rest).takeWhile Char.isDigit = ds := by
  rw [List.takeWhile_append_of_pos hds]
  cases rest with
  | nil => simp
  | cons c rest => simp [(h c rfl).1]

theorem dropWhile_digits (hds : ∀ c ∈ ds, c.isDigit = true) (h : Ends rest) :
    (ds ++ rest).dropWhile Char.isDigit = rest := by
  rw [List.dropWhile_append_of_pos hds]
  cases rest with
  | nil => rfl
  | cons c rest => simp [(h c rfl).1]

/-- The digits of a number are read back as the number, up to the end of the numeral. -/
theorem numeral?_natDigits (negative : Bool) (n : Nat) (h : Ends rest) :
    numeral? negative (Number.natDigits n ++ rest)
      = some (int (if negative then -(n : Int) else n), rest) := by
  have hdigits := @Number.isDigit_of_mem_natDigits n
  have htake := takeWhile_digits hdigits h
  have hdrop := dropWhile_digits hdigits h
  have hof := Number.ofDigits_natDigits n
  -- the reader takes no digit behind a leading zero, so the numeral of zero
  -- is read on another branch
  rcases Number.natDigits_eq_or n with hn | ⟨c, cs, hn, hc⟩
  · rw [hn] at hof ⊢
    simp [numeral?, fraction?_of_ends h, exponent?_of_ends h, hof]
  · rw [hn] at hof hdigits htake hdrop ⊢
    have hcd : c.isDigit = true := hdigits c List.mem_cons_self
    rw [List.cons_append] at htake hdrop ⊢
    unfold numeral?
    simp only [hcd, if_true, htake, hdrop]
    simp [fraction?_of_ends h, exponent?_of_ends h, hof]

/-- What begins with a digit is a numeral and no word. -/
theorem plain?_of_isDigit {c : Char} {cs : List Char} (h : c.isDigit = true) :
    plain? (c :: cs) = numeral? false (c :: cs) := by
  have hne : ∀ d, d.isDigit = false → c ≠ d := fun d hd heq => by
    rw [heq, hd] at h
    cases h
  unfold plain?
  split
  all_goals first
    | rfl
    | next heq => exact absurd (List.cons.inj heq).1 (hne _ (by decide))

theorem afterWord?_of_isDigit {w c : Char} {ws cs : List Char} (hw : w.isDigit = false)
    (h : c.isDigit = true) : afterWord? (w :: ws) (c :: cs) = none := by
  have hne : w ≠ c := fun heq => by
    rw [heq, h] at hw
    cases hw
  simp [afterWord?, hne]

/-- A number is written with at least one digit. -/
theorem exists_natDigits_eq_cons (n : Nat) :
    ∃ c cs, Number.natDigits n = c :: cs ∧ c.isDigit = true := by
  cases hn : Number.natDigits n with
  | nil => rcases Number.natDigits_eq_or n with h | ⟨c, cs, h, -⟩ <;> rw [hn] at h <;> cases h
  | cons c cs =>
    exact ⟨c, cs, rfl, Number.isDigit_of_mem_natDigits c (by rw [hn]; exact List.mem_cons_self)⟩

/-- An integer is read back with its sign. -/
theorem plain?_intDigits (i : Int) (h : Ends rest) :
    plain? (Number.intDigits i ++ rest) = some (int i, rest) := by
  obtain ⟨c, cs, hcs, hc⟩ := exists_natDigits_eq_cons i.natAbs
  by_cases hneg : i < 0
  · have hread := numeral?_natDigits true i.natAbs h
    have hi : -(i.natAbs : Int) = i := by omega
    have hword : afterWord? "Infinity".toList (Number.natDigits i.natAbs ++ rest) = none := by
      rw [hcs]
      exact afterWord?_of_isDigit (by decide) hc
    rw [Number.intDigits, if_pos hneg, List.cons_append]
    simp only [plain?, hword, hread, if_true, hi]
  · have hread := numeral?_natDigits false i.natAbs h
    have hi : (i.natAbs : Int) = i := by omega
    rw [Number.intDigits, if_neg hneg]
    rw [hcs, List.cons_append] at hread ⊢
    rw [plain?_of_isDigit hc, hread]
    simp [hi]

/-- The digits that the reader counts are those that were written; for zero it counts none. -/
theorem wholeDigits_intDigits (i : Int) (h : Ends rest) : wholeDigits (Number.intDigits i ++ rest) =
    if Number.natDigits i.natAbs = ['0'] then [] else Number.natDigits i.natAbs := by
  have hdigits := @Number.isDigit_of_mem_natDigits i.natAbs
  have hbody : ∀ body, body = Number.natDigits i.natAbs ++ rest →
      (if body.head? == some '0' || (fraction? (body.dropWhile Char.isDigit)).isSome ||
        (exponent? (body.dropWhile Char.isDigit)).isSome then []
      else body.takeWhile Char.isDigit) =
        if Number.natDigits i.natAbs = ['0'] then [] else Number.natDigits i.natAbs := by
    rintro _ rfl
    rw [dropWhile_digits hdigits h, takeWhile_digits hdigits h, fraction?_of_ends h,
      exponent?_of_ends h]
    rcases Number.natDigits_eq_or i.natAbs with hzero | ⟨c, cs, hcs, hc⟩
    · simp [hzero]
    · simp [hcs, hc]
  by_cases hneg : i < 0
  · rw [Number.intDigits, if_pos hneg, List.cons_append]
    exact hbody _ rfl
  · obtain ⟨c, cs, hcs, hc⟩ := exists_natDigits_eq_cons i.natAbs
    rw [Number.intDigits, if_neg hneg]
    unfold wholeDigits
    split
    · next heq =>
      rw [hcs] at heq
      rw [(List.cons.inj heq).1] at hc
      cases hc
    · exact hbody _ rfl

/-- A whole number begins with a digit or a minus sign. -/
theorem exists_intDigits_eq_cons (i : Int) :
    ∃ c cs, Number.intDigits i = c :: cs ∧ ∀ e, e.isDigit = false → e ≠ '-' → c ≠ e := by
  by_cases hneg : i < 0
  · refine ⟨'-', Number.natDigits i.natAbs, by rw [Number.intDigits, if_pos hneg], ?_⟩
    exact fun e _ he heq => he heq.symm
  · obtain ⟨c, cs, hcs, hc⟩ := exists_natDigits_eq_cons i.natAbs
    refine ⟨c, cs, by rw [Number.intDigits, if_neg hneg, hcs], fun e he _ heq => ?_⟩
    rw [heq, he] at hc
    cases hc

end Numerals

/-! ### Quoted texts -/

section Quoted

variable {rest : List Char}

/-- A hexadecimal digit has the value that it was made for. -/
theorem hexValue?_hexChar {d : Nat} (h : d < 16) :
    Number.hexValue? (Number.hexChar d) = some d := by
  revert h
  revert d
  decide

/-- Four hexadecimal digits are read back as one unit. -/
theorem unit?_hexDigits {n : Nat} (h : n < 0x10000) (rest : List Char) :
    unit? (Number.hexDigits 4 n ++ rest) = some (n, rest) := by
  have hvalue : ∀ m : Nat, Number.hexValue? (Number.hexChar (m % 16)) = some (m % 16) := fun m =>
    hexValue?_hexChar (Nat.mod_lt m (by decide))
  simp only [Number.hexDigits, List.nil_append, List.cons_append, unit?, hvalue,
    Option.bind_eq_bind,
    Option.bind_some, Option.pure_def, Option.some.injEq, Prod.mk.injEq, and_true]
  omega

/-- The escape of a control character, with at least the closing quote behind it. -/
theorem unitEscape?_hexDigits {n : Nat} (h : n < 0x20) (hrest : rest ≠ []) :
    unitEscape? (Number.hexDigits 4 n ++ rest) = .ok (Char.ofNat n, rest) := by
  have hunit := unit?_hexDigits (n := n) (by omega) rest
  have hhigh : isHighUnit n = false := by simp [isHighUnit]; omega
  have hlow : isLowUnit n = false := by simp [isLowUnit]; omega
  cases rest with
  | nil => exact absurd rfl hrest
  | cons c cs => simp [unitEscape?, hunit, hhigh, hlow, unitChar]

/-- A short escape stands for one character. -/
theorem quotedBody_simple (start fuel : Nat) {e x : Char} (h : simpleEscape? e = some x) :
    quotedBody start (fuel + 1) ('\\' :: e :: rest) = (do
      let (body, after) ← quotedBody start fuel rest
      return (x :: body, after)) := by
  have hu : e ≠ 'u' := fun heq => by
    rw [heq] at h
    cases h
  have hslash : ('\\' == '"') = false := by decide
  simp only [quotedBody, hslash, Bool.false_eq_true, if_false, beq_self_eq_true, if_true, h]

/-- What is written for a character: a backslash and a letter, the number of a control character, or
the character itself. -/
theorem escaped_cases (c : Char) :
    (∃ e, simpleEscape? e = some c ∧ escaped false c = ['\\', e]) ∨
    (c.toNat < 0x20 ∧ escaped false c = unitEscape c.toNat) ∨
    (c ≠ '"' ∧ c ≠ '\\' ∧ 0x1F < c.toNat ∧ escaped false c = [c]) := by
  have hchar {n : Nat} (hn : (c.toNat == n) = true) : Char.ofNat n = c := by
    rw [← beq_iff_eq.mp hn, Char.ofNat_toNat]
  unfold escaped
  -- the tests come in the order in which they are made
  by_cases hquote : (c == '"') = true
  · exact Or.inl ⟨'"', by rw [beq_iff_eq.mp hquote]; rfl, if_pos hquote⟩
  rw [if_neg hquote]
  by_cases hslash : (c == '\\') = true
  · exact Or.inl ⟨'\\', by rw [beq_iff_eq.mp hslash]; rfl, if_pos hslash⟩
  rw [if_neg hslash]
  by_cases hn : (c == '\n') = true
  · exact Or.inl ⟨'n', by rw [beq_iff_eq.mp hn]; rfl, if_pos hn⟩
  rw [if_neg hn]
  by_cases hr : (c == '\r') = true
  · exact Or.inl ⟨'r', by rw [beq_iff_eq.mp hr]; rfl, if_pos hr⟩
  rw [if_neg hr]
  by_cases ht : (c == '\t') = true
  · exact Or.inl ⟨'t', by rw [beq_iff_eq.mp ht]; rfl, if_pos ht⟩
  rw [if_neg ht]
  by_cases hb : (c.toNat == 0x08) = true
  · exact Or.inl ⟨'b', congrArg some (hchar hb), if_pos hb⟩
  rw [if_neg hb]
  by_cases hf : (c.toNat == 0x0C) = true
  · exact Or.inl ⟨'f', congrArg some (hchar hf), if_pos hf⟩
  rw [if_neg hf]
  by_cases hcontrol : c.toNat < 0x20
  · exact Or.inr (Or.inl ⟨hcontrol, if_pos hcontrol⟩)
  rw [if_neg hcontrol]
  exact Or.inr (Or.inr ⟨fun heq => hquote (beq_iff_eq.mpr heq),
    fun heq => hslash (beq_iff_eq.mpr heq), by omega, if_neg (by simp)⟩)

/-- One character is read back from what is written for it. -/
theorem quotedBody_escaped (start fuel : Nat) (c : Char) (hrest : rest ≠ []) :
    quotedBody start (fuel + 1) (escaped false c ++ rest) = (do
      let (body, after) ← quotedBody start fuel rest
      return (c :: body, after)) := by
  rcases escaped_cases c with ⟨e, he, hc⟩ | ⟨hcontrol, hc⟩ | ⟨hquote, hslash, hctl, hc⟩
  · rw [hc]
    exact quotedBody_simple start fuel he
  · have hunit := unitEscape?_hexDigits hcontrol hrest
    rw [Char.ofNat_toNat] at hunit
    rw [hc]
    simp only [unitEscape, List.cons_append, quotedBody, hunit]
    rfl
  · have hplain : ¬ c.toNat ≤ 0x1F := by omega
    rw [hc]
    simp only [List.singleton_append, quotedBody, beq_false_of_ne hquote, beq_false_of_ne hslash,
      hplain, Bool.false_eq_true, if_false]

-- one unit of fuel for each character, however long its escape
/-- Escaped characters up to the closing quote are read back, as long as there is a step left for
each of them. -/
theorem quotedBody_flatMap (start : Nat) : ∀ (cs : List Char) {fuel : Nat}, cs.length < fuel →
    quotedBody start fuel (cs.flatMap (escaped false) ++ '"' :: rest) = .ok (cs, rest)
  | [], fuel + 1, _ => rfl
  | c :: cs, fuel + 1, h => by
    rw [List.flatMap_cons, List.append_assoc, quotedBody_escaped start fuel c (by simp),
      quotedBody_flatMap start cs (by simpa using h)]
    rfl

/-- Escaping makes a text no shorter, so its length is fuel enough. -/
theorem length_le_flatMap_escaped (cs : List Char) :
    cs.length ≤ (cs.flatMap (escaped false)).length := by
  induction cs with
  | nil => exact Nat.le_refl _
  | cons c cs ih =>
    have hpos : 1 ≤ (escaped false c).length := by
      rcases escaped_cases c with ⟨e, -, hc⟩ | ⟨-, hc⟩ | ⟨-, -, -, hc⟩
      all_goals
        rw [hc]
        exact Nat.succ_le_succ (Nat.zero_le _)
    simp only [List.flatMap_cons, List.length_append, List.length_cons]
    omega

/-- A quoted text is read back. -/
theorem quotedText_quoted (s : String) (rest : List Char) :
    quotedText (s.toList.flatMap (escaped false) ++ '"' :: rest) = .ok (s, rest) := by
  have hlen := length_le_flatMap_escaped s.toList
  rw [quotedText,
    quotedBody_flatMap _ s.toList (by rw [List.length_append, List.length_cons]; omega)]
  simp [bind, Except.bind, pure, Except.pure]

end Quoted

/-! ### One step of reading a value -/

/-- A quote begins a text. -/
theorem value_quote (fuel : Nat) (cs : List Char) : value fuel ('"' :: cs) = (do
    let (s, rest) ← quotedText cs
    return (str s, rest)) := by
  cases fuel <;> rfl

/-- A bracket begins a list, which is empty if the closing bracket comes next. -/
theorem value_bracket (fuel : Nat) (cs : List Char) : value (fuel + 1) ('[' :: cs) =
    match skipSpace cs with
    | ']' :: after => .ok (arr [], after)
    | first => do
      let (xs, after) ← items fuel first
      return (arr xs, after) := rfl

/-- A brace begins an object, which is empty if the closing brace comes next. -/
theorem value_brace (fuel : Nat) (cs : List Char) : value (fuel + 1) ('\x7b' :: cs) =
    match skipSpace cs with
    | '\x7d' :: after => .ok (obj [], after)
    | first => do
      let (fs, after) ← fields fuel [] first
      return (obj fs, after) := rfl

/-- Whatever else begins a value is a numeral or a word, and a numeral with too many digits
is refused. -/
theorem value_plain {c : Char} (hquote : c ≠ '"') (hbracket : c ≠ '[') (hbrace : c ≠ '\x7b')
    (fuel : Nat) (cs : List Char) : value fuel (c :: cs) =
      if Number.digitLimit < (wholeDigits (c :: cs)).length then
        .error (.longNumeral (wholeDigits (c :: cs)).length)
      else
        match plain? (c :: cs) with
        | some r => .ok r
        | none => .error (.malformed .expectingValue (c :: cs).length) := by
  unfold value
  split
  · next heq => exact absurd (List.cons.inj heq).1 hquote
  · next heq => exact absurd (List.cons.inj heq).1 hbracket
  · next heq => exact absurd (List.cons.inj heq).1 hbrace
  · rfl

/-- Behind an item comes another one or the end of the list. -/
theorem items_succ (fuel : Nat) (cs : List Char) : items (fuel + 1) cs = (do
    let (x, rest) ← value fuel cs
    match skipSpace rest with
    | ']' :: after => return ([x], after)
    | ',' :: more =>
      let (xs, after) ← items fuel (skipSpace more)
      return (x :: xs, after)
    | rest => .error (.malformed .expectingComma rest.length)) := rfl

/-- A field is a quoted name, a colon and a value; behind it comes another one or the end of
the object. -/
theorem fields_succ (fuel : Nat) (before : List (String × Json)) (cs : List Char) :
    fields (fuel + 1) before ('"' :: cs) = (do
      let (name, rest) ← quotedText cs
      match skipSpace rest with
      | ':' :: rest =>
        let (x, rest) ← value fuel (skipSpace rest)
        match skipSpace rest with
        | '\x7d' :: after => return (Pairs.set name x before, after)
        | ',' :: more => fields fuel (Pairs.set name x before) (skipSpace more)
        | rest => .error (.malformed .expectingComma rest.length)
      | rest => .error (.malformed .expectingColon rest.length)) := rfl

/-! ### Blanks -/

theorem skipSpace_newLine_append (d : Nat) (cs : List Char) :
    skipSpace (newLine d ++ cs) = skipSpace cs := by
  have hspace : ∀ e ∈ newLine d, isSpace e = true := by
    intro e he
    rcases List.mem_cons.mp he with rfl | he
    · decide
    · rw [List.eq_of_mem_replicate he]
      decide
  rw [skipSpace, List.dropWhile_append_of_pos hspace, skipSpace]

theorem skipSpace_cons {c : Char} (h : isSpace c = false) (cs : List Char) :
    skipSpace (c :: cs) = c :: cs := by
  simp [skipSpace, h]

/-- A new line with its indentation is skipped up to the next character. -/
theorem skipSpace_newLine (d : Nat) {c : Char} (h : isSpace c = false) (cs : List Char) :
    skipSpace (newLine d ++ c :: cs) = c :: cs := by
  rw [skipSpace_newLine_append, skipSpace_cons h]

/-- A character that is a digit or a minus sign is no blank. -/
theorem isSpace_eq_false_of_ne {c : Char} (h : ∀ e, e.isDigit = false → e ≠ '-' → c ≠ e) :
    isSpace c = false := by
  simp [isSpace, h ' ' (by decide) (by decide), h '\t' (by decide) (by decide),
    h '\n' (by decide) (by decide), h '\r' (by decide) (by decide)]

/-- A comma ends a numeral. -/
theorem ends_comma (cs : List Char) : Ends (',' :: cs) := by
  simp [Ends]

/-- So does a new line. -/
theorem ends_newLine (d : Nat) (cs : List Char) : Ends (newLine d ++ cs) := by
  simp [Ends, newLine]

/-! ### Values -/

/-- The values that are read back from their texts. -/
inductive Readable : Json → Prop
  | null : Readable null
  | bool (b : Bool) : Readable (bool b)
  | int {i : Int} : (Number.natDigits i.natAbs).length ≤ Number.digitLimit → Readable (int i)
  | str (s : String) : Readable (str s)
  | arr {xs : List Json} : (∀ x ∈ xs, Readable x) → Readable (arr xs)
  | obj {fs : List (String × Json)} : (fs.map Prod.fst).Nodup → (∀ f ∈ fs, Readable f.2) →
      Readable (obj fs)

/-- The values without floating point numbers in which no object has a name twice. -/
inductive Plain : Json → Prop
  | null : Plain null
  | bool (b : Bool) : Plain (bool b)
  | int (i : Int) : Plain (int i)
  | str (s : String) : Plain (str s)
  | arr {xs : List Json} : (∀ x ∈ xs, Plain x) → Plain (arr xs)
  | obj {fs : List (String × Json)} : (fs.map Prod.fst).Nodup → (∀ f ∈ fs, Plain f.2) →
      Plain (obj fs)

/-- Some item has a long numeral if a list has one. -/
theorem anyLongNumeral_eq_any (xs : List Json) : anyLongNumeral xs = xs.any hasLongNumeral := by
  induction xs with
  | nil => rfl
  | cons x xs ih => rw [anyLongNumeral, ih, List.any_cons]

theorem anyLongField_eq_any (fs : List (String × Json)) :
    anyLongField fs = fs.any fun f => f.2.hasLongNumeral := by
  induction fs with
  | nil => rfl
  | cons f fs ih => rw [anyLongField, ih, List.any_cons]

/-- A plain value without long numbers is read back. -/
theorem Plain.readable {j : Json} (h : j.Plain) (hshort : j.hasLongNumeral = false) :
    j.Readable := by
  induction h with
  | null => exact .null
  | bool b => exact .bool b
  | int i => exact .int (by simpa [hasLongNumeral, Number.isLong] using hshort)
  | str s => exact .str s
  | arr _ ih =>
    rw [hasLongNumeral, anyLongNumeral_eq_any, List.any_eq_false] at hshort
    exact .arr fun x hx => ih x hx (Bool.eq_false_iff.mpr (hshort x hx))
  | obj hnodup _ ih =>
    rw [hasLongNumeral, anyLongField_eq_any, List.any_eq_false] at hshort
    exact .obj hnodup fun f hf => ih f hf (Bool.eq_false_iff.mpr (hshort f hf))

/-- The text of a value, at any depth and with anything behind it that can stand there, is read as
the value. Two units of fuel for each character are enough. -/
def ReadsBack (j : Json) : Prop :=
  ∀ (d fuel : Nat) (rest : List Char), 2 * (chars .indented d j).length ≤ fuel → Ends rest →
    value fuel (chars .indented d j ++ rest) = .ok (j, rest)

/-- The text of a value begins with a character that is neither a blank nor a closing bracket. -/
theorem Readable.exists_chars_eq_cons {j : Json} (h : Readable j) (d : Nat) :
    ∃ c cs, chars .indented d j = c :: cs ∧ isSpace c = false ∧ c ≠ ']' ∧ c ≠ '\ufeff' := by
  cases h with
  | null => exact ⟨'n', "ull".toList, rfl, by decide, by decide, by decide⟩
  | bool b =>
    cases b
    · exact ⟨'f', "alse".toList, rfl, by decide, by decide, by decide⟩
    · exact ⟨'t', "rue".toList, rfl, by decide, by decide, by decide⟩
  | @int i _ =>
    obtain ⟨c, cs, hcs, hne⟩ := exists_intDigits_eq_cons i
    exact ⟨c, cs, by rw [chars, hcs], isSpace_eq_false_of_ne hne, hne _ (by decide) (by decide),
      hne _ (by decide) (by decide)⟩
  | str s => exact ⟨'"', _, rfl, by decide, by decide, by decide⟩
  | @arr xs _ =>
    cases xs <;> exact ⟨'[', _, by rw [chars], by decide, by decide, by decide⟩
  | @obj fs _ _ =>
    cases fs <;> exact ⟨'\x7b', _, by rw [chars], by decide, by decide, by decide⟩

/-- The text of a value behind blanks. -/
theorem Readable.skipSpace_chars {j : Json} (h : Readable j) (d : Nat) (rest : List Char) :
    skipSpace (chars .indented d j ++ rest) = chars .indented d j ++ rest := by
  obtain ⟨c, cs, hcs, hspace, -⟩ := h.exists_chars_eq_cons d
  rw [hcs, List.cons_append, skipSpace_cons hspace]

/-- One item is read, and then what follows it decides. -/
theorem items_chars_append {x : Json} (hx : ReadsBack x) {d fuel : Nat} {rest : List Char}
    (hfuel : 2 * (chars .indented d x).length ≤ fuel) (hends : Ends rest) :
    items (fuel + 1) (chars .indented d x ++ rest) =
      match skipSpace rest with
      | ']' :: after => .ok ([x], after)
      | ',' :: more => (items fuel (skipSpace more)).map fun (xs, after) => (x :: xs, after)
      | rest => .error (.malformed .expectingComma rest.length) := by
  rw [items_succ, hx d fuel rest hfuel hends]
  rfl

/-- The items of a list are read back up to its closing bracket. -/
theorem items_chars {d d' : Nat} {rest : List Char} : ∀ {xs : List Json} {x : Json} {fuel : Nat},
    (∀ y ∈ x :: xs, Readable y ∧ ReadsBack y) →
    2 * ((chars .indented d x).length + (itemsAfter .indented d xs).length) + 1 ≤ fuel →
    items fuel (chars .indented d x ++ (itemsAfter .indented d xs ++ (newLine d' ++ ']' :: rest)))
      = .ok (x :: xs, rest)
  | [], x, fuel + 1, h, hfuel => by
    rw [itemsAfter, List.nil_append, items_chars_append (h x List.mem_cons_self).2
      (by simp only [itemsAfter, List.length_nil] at hfuel; omega) (ends_newLine d' _),
      skipSpace_newLine d' (show isSpace ']' = false by decide)]
    rfl
  | y :: ys, x, fuel + 1, h, hfuel => by
    have hy := (h y (List.mem_cons_of_mem x List.mem_cons_self)).1
    have hsplit : itemsAfter .indented d (y :: ys) ++ (newLine d' ++ ']' :: rest) =
        ',' :: (newLine d ++ (chars .indented d y ++ (itemsAfter .indented d ys ++
          (newLine d' ++ ']' :: rest)))) := by
      simp [itemsAfter, Layout.indented]
    have hlen : (itemsAfter .indented d (y :: ys)).length = 1 + (newLine d).length +
        ((chars .indented d y).length + (itemsAfter .indented d ys).length) := by
      simp only [itemsAfter, Layout.indented, List.length_append, List.length_cons]
      omega
    have ih : items fuel (chars .indented d y ++ (itemsAfter .indented d ys ++
        (newLine d' ++ ']' :: rest))) = .ok (y :: ys, rest) :=
      items_chars (fun z hz => h z (List.mem_cons_of_mem x hz)) (by omega)
    rw [hsplit, items_chars_append (h x List.mem_cons_self).2 (by omega) (ends_comma _),
      skipSpace_cons (show isSpace ',' = false by decide)]
    simp only [skipSpace_newLine_append, hy.skipSpace_chars, ih]
    rfl

/-- The text of a field at the given depth. -/
def fieldChars (d : Nat) (name : String) (x : Json) : List Char :=
  quoted false name ++ (':' :: ' ' :: chars .indented d x)

/-- A further field is written behind a comma on a line of its own. -/
theorem fieldsAfter_cons (d : Nat) (name : String) (x : Json) (fs : List (String × Json)) :
    fieldsAfter .indented d ((name, x) :: fs)
      = ',' :: (newLine d ++ (fieldChars d name x ++ fieldsAfter .indented d fs)) := by
  simp [fieldsAfter, fieldChars, Layout.indented]

/-- The text of a value is part of that of its field, so the fuel for the field is enough for it. -/
theorem length_chars_le_fieldChars (d : Nat) (name : String) (x : Json) :
    (chars .indented d x).length ≤ (fieldChars d name x).length := by
  simp only [fieldChars, List.length_append, List.length_cons]
  omega

/-- The name of a field is read, and then its value. -/
theorem fields_fieldChars {d : Nat} {x : Json} {rest : List Char}
    (hskip : skipSpace (chars .indented d x ++ rest) = chars .indented d x ++ rest) (fuel : Nat)
    (before : List (String × Json)) (name : String) :
    fields (fuel + 1) before (fieldChars d name x ++ rest) = (do
      let (y, rest) ← value fuel (chars .indented d x ++ rest)
      match skipSpace rest with
      | '\x7d' :: after => return (Pairs.set name y before, after)
      | ',' :: more => fields fuel (Pairs.set name y before) (skipSpace more)
      | rest => .error (.malformed .expectingComma rest.length)) := by
  have htext : fieldChars d name x ++ rest = '"' :: (name.toList.flatMap (escaped false) ++
      '"' :: (':' :: ' ' :: (chars .indented d x ++ rest))) := by
    simp [fieldChars, quoted]
  have hblank : skipSpace (' ' :: (chars .indented d x ++ rest)) = chars .indented d x ++ rest := by
    rw [skipSpace, List.dropWhile_cons_of_pos (by decide)]
    exact hskip
  rw [htext, fields_succ, quotedText_quoted]
  simp only [bind, Except.bind, skipSpace_cons (show isSpace ':' = false by decide), hblank]

/-- A field with another one behind it is read and kept. -/
theorem fields_fieldChars_comma {d fuel : Nat} {x : Json} {before : List (String × Json)}
    {name name' : String} {y : Json} {rest : List Char} (hread : Readable x) (hback : ReadsBack x)
    (hname : name ∉ before.map Prod.fst) (hfuel : 2 * (chars .indented d x).length ≤ fuel) :
    fields (fuel + 1) before
        (fieldChars d name x ++ ',' :: (newLine d ++ (fieldChars d name' y ++ rest)))
      = fields fuel (before ++ [(name, x)]) (fieldChars d name' y ++ rest) := by
  have hquote : skipSpace (newLine d ++ (fieldChars d name' y ++ rest))
      = fieldChars d name' y ++ rest :=
    skipSpace_newLine d (show isSpace '"' = false by decide) _
  rw [fields_fieldChars (hread.skipSpace_chars d _), hback d fuel _ hfuel (ends_comma _)]
  simp only [bind, Except.bind, skipSpace_cons (show isSpace ',' = false by decide), hquote,
    Pairs.set_of_not_mem hname]

private theorem not_mem_of_nodup {before fs : List (String × Json)} {name : String} {x : Json}
    (h : ((before ++ (name, x) :: fs).map Prod.fst).Nodup) : name ∉ before.map Prod.fst := by
  intro hmem
  rw [List.map_append, List.nodup_append] at h
  exact h.2.2 name hmem name List.mem_cons_self rfl

/-- The fields in front of the last one are read and kept, and then the last one is read. -/
theorem fields_before_last {d : Nat} {last : String} {y : Json} {rest : List Char} :
    ∀ {fs before : List (String × Json)} {name : String} {x : Json} {fuel : Nat},
      (∀ f ∈ (name, x) :: fs, Readable f.2 ∧ ReadsBack f.2) →
      ((before ++ (name, x) :: fs).map Prod.fst).Nodup →
      2 * ((chars .indented d x).length + (fieldsAfter .indented d (fs ++ [(last, y)])).length) + 1
        ≤ fuel →
      ∃ k, 2 * (chars .indented d y).length + 1 ≤ k ∧
        fields fuel before
            (fieldChars d name x ++ (fieldsAfter .indented d (fs ++ [(last, y)]) ++ rest))
          = fields k (before ++ (name, x) :: fs) (fieldChars d last y ++ rest)
  | [], before, name, x, fuel + 1, h, hnodup, hfuel => by
    obtain ⟨hread, hback⟩ : Readable x ∧ ReadsBack x := h (name, x) List.mem_cons_self
    have hle := length_chars_le_fieldChars d last y
    rw [List.nil_append, fieldsAfter_cons, fieldsAfter, List.append_nil] at hfuel ⊢
    simp only [List.length_cons, List.length_append] at hfuel
    refine ⟨fuel, by omega, ?_⟩
    rw [List.cons_append, List.append_assoc,
      fields_fieldChars_comma hread hback (not_mem_of_nodup hnodup) (by omega)]
  | (name', x') :: fs, before, name, x, fuel + 1, h, hnodup, hfuel => by
    obtain ⟨hread, hback⟩ : Readable x ∧ ReadsBack x := h (name, x) List.mem_cons_self
    have hle := length_chars_le_fieldChars d name' x'
    rw [List.cons_append, fieldsAfter_cons] at hfuel ⊢
    simp only [List.length_cons, List.length_append] at hfuel
    obtain ⟨k, hk, ih⟩ := @fields_before_last d last y rest fs (before ++ [(name, x)]) name' x' fuel
      (fun f hf => h f (List.mem_cons_of_mem _ hf)) (by simpa using hnodup) (by omega)
    refine ⟨k, hk, ?_⟩
    rw [List.cons_append, List.append_assoc, List.append_assoc,
      fields_fieldChars_comma hread hback (not_mem_of_nodup hnodup) (by omega), ih,
      List.append_assoc, List.singleton_append]

/-- The last field of an object is read back up to the closing bracket. -/
theorem fields_last {d d' fuel : Nat} {x : Json} {before : List (String × Json)} {name : String}
    {rest : List Char} (hread : Readable x) (hback : ReadsBack x)
    (hname : name ∉ before.map Prod.fst) (hfuel : 2 * (chars .indented d x).length + 1 ≤ fuel) :
    fields fuel before (fieldChars d name x ++ (newLine d' ++ '\x7d' :: rest))
      = .ok (before ++ [(name, x)], rest) := by
  obtain ⟨fuel, rfl⟩ : ∃ n, fuel = n + 1 := ⟨fuel - 1, by omega⟩
  rw [fields_fieldChars (hread.skipSpace_chars d _), hback d fuel _ (by omega) (ends_newLine d' _)]
  simp only [bind, Except.bind, skipSpace_newLine d' (show isSpace '\x7d' = false by decide),
    Pairs.set_of_not_mem hname]
  rfl

/-- The fields of an object are read back up to its closing bracket. -/
theorem fields_chars {d d' fuel : Nat} {rest : List Char} {fs : List (String × Json)}
    {name : String} {x : Json} (h : ∀ f ∈ (name, x) :: fs, Readable f.2 ∧ ReadsBack f.2)
    (hnodup : (((name, x) :: fs).map Prod.fst).Nodup)
    (hfuel : 2 * ((chars .indented d x).length + (fieldsAfter .indented d fs).length) + 1 ≤ fuel) :
    fields fuel [] (fieldChars d name x ++
        (fieldsAfter .indented d fs ++ (newLine d' ++ '\x7d' :: rest)))
      = .ok ((name, x) :: fs, rest) := by
  rcases List.eq_nil_or_concat fs with rfl | ⟨init, ⟨last, y⟩, rfl⟩
  · obtain ⟨hread, hback⟩ : Readable x ∧ ReadsBack x := h (name, x) List.mem_cons_self
    rw [fieldsAfter, List.nil_append]
    refine fields_last hread hback List.not_mem_nil ?_
    omega
  · obtain ⟨hread, hback⟩ : Readable y ∧ ReadsBack y := h (last, y) (by simp)
    have hlast : last ∉ ((name, x) :: init).map Prod.fst :=
      @not_mem_of_nodup ((name, x) :: init) [] last y (by simpa using hnodup)
    have hinit : ∀ f ∈ (name, x) :: init, Readable f.2 ∧ ReadsBack f.2 := fun f hf =>
      h f (by rw [List.concat_eq_append, ← List.cons_append]; exact List.mem_append_left _ hf)
    rw [List.concat_eq_append, ← List.cons_append, List.map_append] at hnodup
    rw [List.concat_eq_append] at hfuel ⊢
    obtain ⟨k, hk, heq⟩ := @fields_before_last d last y (newLine d' ++ '\x7d' :: rest) init []
      name x fuel hinit (List.nodup_append.mp hnodup).1 hfuel
    rw [heq]
    exact fields_last hread hback hlast hk

/-- Words are read back; they hold no numeral. -/
theorem readsBack_word {j : Json} (c : Char) (cs : List Char)
    (hchars : ∀ d, chars .indented d j = c :: cs) (hc : c = 'n' ∨ c = 't' ∨ c = 'f')
    (hplain : ∀ rest, plain? (c :: (cs ++ rest)) = some (j, rest)) : ReadsBack j := by
  intro d fuel rest _ _
  have hdigits : (wholeDigits (c :: (cs ++ rest))).length = 0 := by
    rcases hc with rfl | rfl | rfl <;> simp [wholeDigits]
  rw [hchars, List.cons_append, value_plain (by rcases hc with rfl | rfl | rfl <;> decide)
    (by rcases hc with rfl | rfl | rfl <;> decide) (by rcases hc with rfl | rfl | rfl <;> decide),
    hdigits, hplain]
  rfl

/-- A whole number is read, unless it has too many digits. -/
theorem value_intDigits (i : Int) {rest : List Char} (h : Ends rest) (fuel : Nat) :
    value fuel (Number.intDigits i ++ rest) =
      if Number.digitLimit < (Number.natDigits i.natAbs).length then
        .error (.longNumeral (Number.natDigits i.natAbs).length)
      else .ok (int i, rest) := by
  have hdigits := wholeDigits_intDigits i h
  have hplain := plain?_intDigits i h
  obtain ⟨c, cs, hcs, hne⟩ := exists_intDigits_eq_cons i
  rw [hcs, List.cons_append] at hdigits hplain ⊢
  rw [value_plain (hne _ (by decide) (by decide)) (hne _ (by decide) (by decide))
    (hne _ (by decide) (by decide)), hdigits, hplain]
  by_cases hzero : Number.natDigits i.natAbs = ['0']
  · simp [hzero, Number.digitLimit]
  · rw [if_neg hzero]

/-- An integer with few enough digits is read back. -/
theorem readsBack_int {i : Int} (hi : (Number.natDigits i.natAbs).length ≤ Number.digitLimit) :
    ReadsBack (int i) := by
  intro d fuel rest _ hends
  rw [chars, value_intDigits i hends, if_neg (Nat.not_lt.mpr hi)]

/-- Every text is read back. -/
theorem readsBack_str (s : String) : ReadsBack (str s) := by
  intro d fuel rest _ _
  have htext : chars .indented d (str s) ++ rest
      = '"' :: (s.toList.flatMap (escaped false) ++ '"' :: rest) := by
    simp [chars, quoted, Layout.indented]
  rw [htext, value_quote, quotedText_quoted]
  rfl

/-- A list of values that are read back is read back itself. -/
theorem readsBack_arr {xs : List Json} (h : ∀ x ∈ xs, Readable x ∧ ReadsBack x) :
    ReadsBack (arr xs) := by
  intro d fuel rest hfuel _
  cases xs with
  | nil =>
    obtain ⟨fuel, rfl⟩ : ∃ n, fuel = n + 1 := ⟨fuel - 1, by simp [chars] at hfuel; omega⟩
    rfl
  | cons x xs =>
    have htext : chars .indented d (arr (x :: xs)) ++ rest = '[' :: (newLine (d + 1) ++
        (chars .indented (d + 1) x ++ (itemsAfter .indented (d + 1) xs ++
          (newLine d ++ ']' :: rest)))) := by
      simp [chars, Layout.indented]
    have hlen : (chars .indented d (arr (x :: xs))).length = 2 + (newLine (d + 1)).length +
        ((chars .indented (d + 1) x).length + (itemsAfter .indented (d + 1) xs).length) +
          (newLine d).length := by
      simp only [chars, Layout.indented, List.length_append, List.length_cons, List.length_nil]
      omega
    obtain ⟨fuel, rfl⟩ : ∃ n, fuel = n + 1 := ⟨fuel - 1, by omega⟩
    have hitems : items fuel (chars .indented (d + 1) x ++ (itemsAfter .indented (d + 1) xs ++
        (newLine d ++ ']' :: rest))) = .ok (x :: xs, rest) := items_chars h (by omega)
    obtain ⟨c, cs, hcs, hspace, hbracket, -⟩ :=
      (h x List.mem_cons_self).1.exists_chars_eq_cons (d + 1)
    rw [htext, value_bracket]
    rw [hcs, List.cons_append] at hitems ⊢
    rw [skipSpace_newLine (d + 1) hspace]
    -- an item never begins with the bracket that would make the list empty
    split
    · next heq => exact absurd (List.cons.inj heq).1 hbracket
    · simp only [hitems, bind, Except.bind]
      rfl

/-- Behind its opening bracket, an object is read field by field. -/
theorem value_obj_cons {d fuel : Nat} {name : String} {x : Json} {fs : List (String × Json)}
    {rest : List Char} (hfuel : 2 * (chars .indented d (obj ((name, x) :: fs))).length ≤ fuel) :
    ∃ k,
      2 * ((chars .indented (d + 1) x).length + (fieldsAfter .indented (d + 1) fs).length) + 1 ≤ k ∧
      value fuel (chars .indented d (obj ((name, x) :: fs)) ++ rest) = (do
        let (fs, after) ← fields k [] (fieldChars (d + 1) name x ++
          (fieldsAfter .indented (d + 1) fs ++ (newLine d ++ '\x7d' :: rest)))
        return (obj fs, after)) := by
  have htext : chars .indented d (obj ((name, x) :: fs)) ++ rest = '\x7b' :: (newLine (d + 1) ++
      (fieldChars (d + 1) name x ++ (fieldsAfter .indented (d + 1) fs ++
        (newLine d ++ '\x7d' :: rest)))) := by
    simp [chars, fieldChars, Layout.indented]
  have hlen : (chars .indented d (obj ((name, x) :: fs))).length = 2 + (newLine (d + 1)).length +
      (fieldChars (d + 1) name x).length + (fieldsAfter .indented (d + 1) fs).length +
        (newLine d).length := by
    simp only [chars, fieldChars, Layout.indented, List.length_append, List.length_cons,
      List.length_nil]
    omega
  have hle := length_chars_le_fieldChars (d + 1) name x
  obtain ⟨fuel, rfl⟩ : ∃ n, fuel = n + 1 := ⟨fuel - 1, by omega⟩
  refine ⟨fuel, by omega, ?_⟩
  rw [htext, value_brace]
  rw [fieldChars, quoted, List.cons_append, List.cons_append,
    skipSpace_newLine (d + 1) (show isSpace '"' = false by decide)]
  split
  · next heq => exact absurd (List.cons.inj heq).1 (by decide)
  · rfl

/-- An object of values that are read back is read back itself, if its names are different. -/
theorem readsBack_obj {fs : List (String × Json)} (hnodup : (fs.map Prod.fst).Nodup)
    (h : ∀ f ∈ fs, Readable f.2 ∧ ReadsBack f.2) : ReadsBack (obj fs) := by
  intro d fuel rest hfuel _
  cases fs with
  | nil =>
    obtain ⟨fuel, rfl⟩ : ∃ n, fuel = n + 1 := ⟨fuel - 1, by simp [chars] at hfuel; omega⟩
    rfl
  | cons f fs =>
    obtain ⟨k, hk, hvalue⟩ := value_obj_cons hfuel
    rw [hvalue, fields_chars h hnodup hk]
    rfl

/-- Every readable value is read back: numerals and texts first, then lists and objects of them. -/
theorem Readable.readsBack {j : Json} (h : Readable j) : ReadsBack j := by
  induction h with
  | null => exact readsBack_word 'n' "ull".toList (fun _ => rfl) (by decide) fun _ => rfl
  | bool b =>
    cases b
    · exact readsBack_word 'f' "alse".toList (fun _ => rfl) (by decide) fun _ => rfl
    · exact readsBack_word 't' "rue".toList (fun _ => rfl) (by decide) fun _ => rfl
  | int hi => exact readsBack_int hi
  | str s => exact readsBack_str s
  | arr h ih => exact readsBack_arr fun x hx => ⟨h x hx, ih x hx⟩
  | obj hnodup h ih => exact readsBack_obj hnodup fun f hf => ⟨h f hf, ih f hf⟩

/-- A text that begins with neither a blank nor a byte order mark is one value, with at most blanks
behind it. -/
theorem readChars_cons {c : Char} (hspace : isSpace c = false) (hmark : c ≠ '\ufeff')
    (cs : List Char) : readChars (c :: cs) = (do
      let (x, rest) ← value (2 * (c :: cs).length + 2) (c :: cs)
      match skipSpace rest with
      | [] => return x
      | rest => .error (.malformed .extraData rest.length)) := by
  unfold readChars
  split
  · next heq => exact absurd (List.cons.inj heq).1 hmark
  · rewrite [skipSpace_cons hspace]
    rfl

/-- A value is read back from its indented text. -/
theorem read_text {j : Json} (h : Readable j) : read (j.text .indented) = .ok j := by
  obtain ⟨c, cs, hcs, hspace, -, hmark⟩ := h.exists_chars_eq_cons 0
  have hvalue := h.readsBack 0 (2 * (c :: cs).length + 2) [] (by rw [hcs]; omega)
    (by simp [Ends])
  rw [hcs, List.append_nil] at hvalue
  rw [read, text, String.toList_ofList, hcs, readChars_cons hspace hmark, hvalue]
  rfl

/-! ### Numerals that are too long -/

/-- An object is not read when its last field is a whole number with too many digits. -/
theorem read_text_long {fs : List (String × Json)} {n name : String} {x : Json} {i : Int}
    (h : ∀ f ∈ (n, x) :: fs, Readable f.2) (hnodup : (((n, x) :: fs).map Prod.fst).Nodup)
    (hlong : Number.digitLimit < (Number.natDigits i.natAbs).length) :
    read ((obj ((n, x) :: (fs ++ [(name, int i)]))).text .indented)
      = .error (.longNumeral (Number.natDigits i.natAbs).length) := by
  obtain ⟨cs, hcs⟩ : ∃ cs,
      chars .indented 0 (obj ((n, x) :: (fs ++ [(name, int i)]))) = '\x7b' :: cs :=
    ⟨_, by rw [chars]⟩
  obtain ⟨k, hk, hvalue⟩ := @value_obj_cons 0 (2 * ('\x7b' :: cs).length + 2) n x
    (fs ++ [(name, int i)]) [] (by rw [hcs]; omega)
  obtain ⟨k, hk, hlast⟩ := @fields_before_last 1 name (int i) (newLine 0 ++ ['\x7d']) fs [] n x k
    (fun f hf => ⟨h f hf, (h f hf).readsBack⟩) hnodup hk
  obtain ⟨k, rfl⟩ : ∃ n, k = n + 1 := ⟨k - 1, by omega⟩
  have hskip : ∀ rest, skipSpace (chars .indented 1 (int i) ++ rest)
      = chars .indented 1 (int i) ++ rest := by
    obtain ⟨c, ds, hds, hne⟩ := exists_intDigits_eq_cons i
    intro rest
    rw [chars, hds, List.cons_append, skipSpace_cons (isSpace_eq_false_of_ne hne)]
  -- all fields but the last are read, and its numeral stops the reader
  rw [hcs, List.append_nil, hlast, fields_fieldChars (hskip _), chars,
    value_intDigits i (ends_newLine 0 _), if_pos hlong] at hvalue
  rw [read, text, String.toList_ofList, hcs, readChars_cons (by decide) (by decide), hvalue]
  rfl

end Json

end TypeFacts
