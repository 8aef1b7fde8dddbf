import TypeFacts.Proofs.Text.Trim

/-!
# Nested brackets

A nested text closes every bracket that it opens, each by its own partner and in the right order.
`Nested p cs` also says that the characters of `cs` outside of all brackets belong to the class `p`.

* A nested text without the separator outside of its brackets is never cut (`pieces_append`), so
  texts joined by the separator are split into exactly these texts (`splitOutside_intercalate`).
* Blanks around a text do not change its parts (`splitOutside_trim`).
* Counting parentheses alone, a group in parentheses is closed by its last character
  (`isWrapped_group`), and a nested text with something behind it is not (`not_isWrapped_append`).
-/

namespace TypeFacts.TypeText

open Text (Blank isBlank trim trimLeft trimRight)

/-- The bracket that closes an opening one. -/
def closerOf? : Char → Option Char
  | '<' => some '>'
  | '(' => some ')'
  | '{' => some '}'
  | '[' => some ']'
  | _ => none

/-- A text whose brackets match, with characters of the class `p` outside of them. -/
inductive Nested : (Char → Bool) → List Char → Prop
  | nil {p : Char → Bool} : Nested p []
  | char {p : Char → Bool} {c : Char} {cs : List Char} : isOpener c = false → isCloser c = false →
      p c = true → Nested p cs → Nested p (c :: cs)
  | group {p : Char → Bool} {o c : Char} {inner rest : List Char} : closerOf? o = some c →
      Nested (fun _ => true) inner → Nested p rest → Nested p (o :: (inner ++ c :: rest))

/-! ### Brackets and depth -/

/-- What has a closing bracket is an opening one. -/
theorem isOpener_of_closerOf? {o c : Char} (h : closerOf? o = some c) : isOpener o = true := by
  unfold closerOf? at h
  split at h <;> first | decide | cases h

/-- What closes a bracket is a closing one. -/
theorem isCloser_of_closerOf? {o c : Char} (h : closerOf? o = some c) : isCloser c = true := by
  unfold closerOf? at h
  split at h <;> cases h <;> decide

theorem not_isOpener_of_isCloser {c : Char} (h : isCloser c = true) : isOpener c = false := by
  simp only [isCloser, Bool.or_eq_true, beq_iff_eq] at h
  rcases h with ((rfl | rfl) | rfl) | rfl <;> decide

/-- An opening bracket goes one deeper. -/
theorem depthAfter_of_isOpener {c : Char} (h : isOpener c = true) (d : Nat) :
    depthAfter d c = d + 1 := by
  simp [depthAfter, h]

/-- A closing bracket goes one back. -/
theorem depthAfter_of_isCloser {c : Char} (h : isCloser c = true) (d : Nat) :
    depthAfter d c = d - 1 := by
  simp [depthAfter, h, not_isOpener_of_isCloser h]

/-- All other characters stay at their depth. -/
theorem depthAfter_of_plain {c : Char} (ho : isOpener c = false) (hc : isCloser c = false)
    (d : Nat) : depthAfter d c = d := by
  simp [depthAfter, ho, hc]

/-! ### Building nested texts -/

namespace Nested

variable {p q : Char → Bool} {cs ds : List Char}

/-- Nested texts in a row are nested. -/
theorem append (h : Nested p cs) (h' : Nested p ds) : Nested p (cs ++ ds) := by
  induction h with
  | nil => exact h'
  | char ho hc hp _ ih => exact .char ho hc hp (ih h')
  | @group p o c inner rest hoc hin _ _ ih =>
    have hassoc : (o :: (inner ++ c :: rest)) ++ ds = o :: (inner ++ c :: (rest ++ ds)) := by simp
    rw [hassoc]
    exact .group hoc hin (ih h')

/-- More characters may be allowed between the brackets. -/
theorem mono (hpq : ∀ c, p c = true → q c = true) (h : Nested p cs) : Nested q cs := by
  induction h with
  | nil => exact .nil
  | char ho hc hp _ ih => exact .char ho hc (hpq _ hp) (ih hpq)
  | group hoc hin _ _ ih => exact .group hoc hin (ih hpq)

/-- A text in brackets. -/
theorem bracketed {o c : Char} (hoc : closerOf? o = some c) (h : Nested q cs) :
    Nested p (o :: (cs ++ [c])) :=
  .group hoc (h.mono fun _ _ => rfl) .nil

/-- Characters of a class without brackets. -/
theorem of_forall (h : ∀ c ∈ cs, isOpener c = false ∧ isCloser c = false ∧ p c = true) :
    Nested p cs := by
  induction cs with
  | nil => exact .nil
  | cons c cs ih =>
    obtain ⟨ho, hc, hp⟩ := h c List.mem_cons_self
    exact .char ho hc hp (ih fun d hd => h d (List.mem_cons_of_mem c hd))

/-- The first character opens a bracket or belongs to the class. -/
theorem head (h : Nested p cs) : ∀ c ∈ cs.head?, isOpener c = true ∨ p c = true := by
  cases h with
  | nil => simp
  | char _ _ hp _ => simpa using Or.inr hp
  | group hoc _ _ => simpa using Or.inl (isOpener_of_closerOf? hoc)

/-- The last character closes a bracket or belongs to the class. -/
theorem getLast (h : Nested p cs) : ∀ c ∈ cs.getLast?, isCloser c = true ∨ p c = true := by
  induction h with
  | nil => simp
  | @char p c cs _ _ hp _ ih =>
    intro d hd
    cases hl : cs.getLast? with
    | none =>
      rw [List.getLast?_cons, hl] at hd
      simp only [Option.getD_none, Option.mem_def, Option.some.injEq] at hd
      exact Or.inr (hd ▸ hp)
    | some e =>
      rw [List.getLast?_cons, hl] at hd
      exact ih d (by rw [hl]; simpa using hd)
  | @group p o c inner rest hoc _ _ _ ih =>
    intro d hd
    rw [← List.cons_append, List.getLast?_append, List.getLast?_cons] at hd
    simp only [Option.mem_def, Option.some_or, Option.some.injEq] at hd
    cases hl : rest.getLast? with
    | none =>
      rw [hl] at hd
      exact Or.inl (hd ▸ isCloser_of_closerOf? hoc)
    | some e => exact ih d (by rw [hl] at hd ⊢; simpa using hd)

/-- A nested text without blanks outside of its brackets has none at its ends. -/
theorem trim_eq_self (h : Nested p cs) (hp : ∀ c, p c = true → isBlank c = false) : trim cs = cs :=
  Text.trim_eq_self (fun c hc => (h.head c hc).elim not_isBlank_of_isOpener (hp c))
    fun c hc => (h.getLast c hc).elim not_isBlank_of_isCloser (hp c)

/-- Nested texts joined by a character of the class. -/
theorem intercalate {sep : Char} (ho : isOpener sep = false) (hc : isCloser sep = false)
    (hp : p sep = true) : ∀ {texts : List (List Char)},
      (∀ t ∈ texts, Nested p t) → Nested p ([sep].intercalate texts)
  | [], _ => .nil
  | [t], h => by
    rw [List.intercalate_singleton]
    exact h t List.mem_cons_self
  | t :: u :: us, h => by
    rw [List.intercalate_cons_cons, List.append_assoc]
    have ih := intercalate ho hc hp fun v (hv : v ∈ u :: us) => h v (List.mem_cons_of_mem t hv)
    exact (h t List.mem_cons_self).append (.char ho hc hp ih)

end Nested

/-! ### Cutting at a separator -/

section Cutting

variable {sep : Char} {d : Nat}

/-- A character that is no cut belongs to the first piece. -/
theorem pieces_cons_of_no_cut {c : Char} (h : c ≠ sep ∨ depthAfter d c ≠ 0) (cs : List Char) :
    pieces sep d (c :: cs) = (pieces sep (depthAfter d c) cs).modifyHead (c :: ·) := by
  have hcut : (c == sep && depthAfter d c == 0) = false := by
    rcases h with h | h <;> simp [h]
  simp only [pieces, hcut, Bool.false_eq_true, if_false]
  cases hp : pieces sep (depthAfter d c) cs with
  | nil => exact absurd hp (pieces_ne_nil _ _ _)
  | cons p ps => rfl

/-- A separator outside of all brackets is a cut. -/
theorem pieces_cons_sep (ho : isOpener sep = false) (hc : isCloser sep = false) (cs : List Char) :
    pieces sep 0 (sep :: cs) = [] :: pieces sep 0 cs := by
  simp [pieces, depthAfter_of_plain ho hc]

private theorem modifyHead_append (a b : List Char) (ps : List (List Char)) :
    ps.modifyHead ((a ++ b) ++ ·) = (ps.modifyHead (b ++ ·)).modifyHead (a ++ ·) := by
  cases ps <;> simp

/-- A nested text is not cut, unless the separator stands outside of its brackets at depth zero. -/
theorem pieces_append {p : Char → Bool} {cs : List Char} (hc : isCloser sep = false)
    (h : Nested p cs) (hp : d = 0 → p sep = false) (rest : List Char) :
    pieces sep d (cs ++ rest) = (pieces sep d rest).modifyHead (cs ++ ·) := by
  induction h generalizing d rest with
  | nil =>
    cases hps : pieces sep d rest with
    | nil => exact absurd hps (pieces_ne_nil _ _ _)
    | cons q qs => simp [hps]
  | @char p c cs hco hcc hpc _ ih =>
    have hd : depthAfter d c = d := depthAfter_of_plain hco hcc d
    have hcut : c ≠ sep ∨ depthAfter d c ≠ 0 := by
      rw [hd]
      by_cases hz : d = 0
      · refine Or.inl fun heq => ?_
        have hfalse := hp hz
        rw [← heq, hpc] at hfalse
        cases hfalse
      · exact Or.inr hz
    rw [List.cons_append, pieces_cons_of_no_cut hcut, hd, ih hp]
    exact (modifyHead_append [c] cs _).symm
  | @group p o c inner rest' hoc _ _ ihin ih =>
    have hopen := isOpener_of_closerOf? hoc
    have hclose := isCloser_of_closerOf? hoc
    have hne : c ≠ sep := fun heq => by rw [heq, hc] at hclose; cases hclose
    -- inside the brackets the depth is positive, so the separator does not cut there
    have hassoc : o :: (inner ++ c :: rest') ++ rest = o :: (inner ++ (c :: (rest' ++ rest))) := by
      simp
    rw [hassoc, pieces_cons_of_no_cut (Or.inr (by rw [depthAfter_of_isOpener hopen]; omega)),
      depthAfter_of_isOpener hopen, ihin (fun h => absurd h (by omega)),
      pieces_cons_of_no_cut (Or.inl hne), depthAfter_of_isCloser hclose, Nat.add_sub_cancel,
      ih hp]
    cases pieces sep d rest <;> simp

/-- A nested text without the separator outside of its brackets is one piece. -/
theorem pieces_eq_singleton {p : Char → Bool} {cs : List Char} (hc : isCloser sep = false)
    (h : Nested p cs) (hp : p sep = false) : pieces sep 0 cs = [cs] := by
  have happ := pieces_append (d := 0) hc h (fun _ => hp) []
  rw [List.append_nil] at happ
  rw [happ]
  simp [pieces]

/-- Nested texts with separators between them are cut apart again. -/
theorem pieces_intercalate {p : Char → Bool} (ho : isOpener sep = false) (hc : isCloser sep = false)
    (hp : p sep = false) : ∀ {texts : List (List Char)}, texts ≠ [] → (∀ t ∈ texts, Nested p t) →
      pieces sep 0 ([sep].intercalate texts) = texts
  | [t], _, h => by
    rw [List.intercalate_singleton]
    exact pieces_eq_singleton hc (h t List.mem_cons_self) hp
  | t :: u :: us, _, h => by
    have ih := pieces_intercalate ho hc hp (List.cons_ne_nil u us)
      fun v hv => h v (List.mem_cons_of_mem t hv)
    rw [List.intercalate_cons_cons, List.append_assoc,
      pieces_append hc (h t List.mem_cons_self) (fun _ => hp), List.singleton_append,
      pieces_cons_sep ho hc, ih]
    simp

/-- Nested texts joined by a separator that none of them has outside of its brackets are the parts
that the joined text is split into. -/
theorem splitOutside_intercalate {p : Char → Bool} {texts : List (List Char)}
    (ho : isOpener sep = false) (hc : isCloser sep = false) (hp : p sep = false)
    (hne : texts ≠ []) (h : ∀ t ∈ texts, Nested p t) :
    splitOutside sep ([sep].intercalate texts) = texts.map trim := by
  rw [splitOutside, pieces_intercalate ho hc hp hne h]

/-- A nested text without the separator is not cut. -/
theorem splitOutside_eq_singleton {p : Char → Bool} {cs : List Char} (hc : isCloser sep = false)
    (h : Nested p cs) (hp : p sep = false) : splitOutside sep cs = [trim cs] := by
  rw [splitOutside, pieces_eq_singleton hc h hp, List.map_singleton]

/-! ### Blanks around a text -/

/-- A blank opens no bracket. -/
theorem not_isOpener_of_isBlank {c : Char} (h : isBlank c = true) : isOpener c = false := by
  refine Bool.eq_false_iff.mpr fun ho => ?_
  rw [not_isBlank_of_isOpener ho] at h
  cases h

/-- A blank closes no bracket. -/
theorem not_isCloser_of_isBlank {c : Char} (h : isBlank c = true) : isCloser c = false := by
  refine Bool.eq_false_iff.mpr fun hc => ?_
  rw [not_isBlank_of_isCloser hc] at h
  cases h

/-- Blanks are nested where they are allowed. -/
theorem Nested.of_blank {a : List Char} {p : Char → Bool} (ha : Blank a)
    (hp : ∀ c, isBlank c = true → p c = true) : Nested p a :=
  .of_forall fun c hc =>
    ⟨not_isOpener_of_isBlank (ha c hc), not_isCloser_of_isBlank (ha c hc), hp c (ha c hc)⟩

theorem depthAfter_of_isBlank {c : Char} (h : isBlank c = true) (d : Nat) : depthAfter d c = d :=
  depthAfter_of_plain (not_isOpener_of_isBlank h) (not_isCloser_of_isBlank h) d

private theorem ne_of_isBlank {c : Char} (hsep : isBlank sep = false) (h : isBlank c = true) :
    c ≠ sep := fun heq => by
  rw [heq, hsep] at h
  cases h

private theorem map_trim_modifyHead_cons {c : Char} (h : isBlank c = true)
    (ps : List (List Char)) : (ps.modifyHead (c :: ·)).map trim = ps.map trim := by
  cases ps with
  | nil => rfl
  | cons p ps =>
    have hp : trim (c :: p) = trim p :=
      Text.trim_blank_append (a := [c]) (fun e he => by rwa [List.mem_singleton.mp he]) p
    simp [hp]

/-- Blanks in front do not change the parts. -/
theorem splitOutside_blank_append (hsep : isBlank sep = false) {a : List Char} (ha : Blank a)
    (cs : List Char) : splitOutside sep (a ++ cs) = splitOutside sep cs := by
  induction a with
  | nil => rfl
  | cons c a ih =>
    have hc : isBlank c = true := ha c List.mem_cons_self
    rw [List.cons_append, splitOutside, pieces_cons_of_no_cut (Or.inl (ne_of_isBlank hsep hc)),
      depthAfter_of_isBlank hc, map_trim_modifyHead_cons hc, ← splitOutside]
    exact ih fun e he => ha e (List.mem_cons_of_mem c he)

private theorem trimRight_cons_congr (c : Char) {p q : List Char} (h : trimRight p = trimRight q) :
    trimRight (c :: p) = trimRight (c :: q) := by
  obtain ⟨a, ha, hp⟩ := Text.exists_eq_trimRight_append p
  obtain ⟨b, hb, hq⟩ := Text.exists_eq_trimRight_append q
  calc trimRight (c :: p) = trimRight (c :: trimRight p ++ a) := by rw [List.cons_append, ← hp]
    _ = trimRight (c :: trimRight q ++ b) := by
      rw [Text.trimRight_append_of_blank ha, Text.trimRight_append_of_blank hb, h]
    _ = trimRight (c :: q) := by rw [List.cons_append, ← hq]

private theorem map_trimRight_modifyHead_cons (c : Char) {ps qs : List (List Char)}
    (h : ps.map trimRight = qs.map trimRight) :
    (ps.modifyHead (c :: ·)).map trimRight = (qs.modifyHead (c :: ·)).map trimRight := by
  cases ps with
  | nil =>
    cases qs with
    | nil => rfl
    | cons q qs => simp at h
  | cons p ps =>
    cases qs with
    | nil => simp at h
    | cons q qs =>
      simp only [List.map_cons, List.cons.injEq] at h
      simp [trimRight_cons_congr c h.1, h.2]

/-- A blank at the end belongs to the last piece, whatever the depth. -/
private theorem map_trimRight_pieces_append (hsep : isBlank sep = false) {b : Char}
    (hb : isBlank b = true) (d : Nat) (cs : List Char) :
    (pieces sep d (cs ++ [b])).map trimRight = (pieces sep d cs).map trimRight := by
  induction cs generalizing d with
  | nil =>
    rw [List.nil_append, pieces_cons_of_no_cut (Or.inl (ne_of_isBlank hsep hb))]
    simp [pieces, trimRight, hb]
  | cons c cs ih =>
    by_cases hcut : c = sep ∧ depthAfter d c = 0
    · obtain ⟨rfl, hzero⟩ := hcut
      simp [pieces, hzero, ih 0]
    · have hno : c ≠ sep ∨ depthAfter d c ≠ 0 := not_and_or.mp hcut
      rw [List.cons_append, pieces_cons_of_no_cut hno, pieces_cons_of_no_cut hno]
      exact map_trimRight_modifyHead_cons c (ih (depthAfter d c))

/-- Blanks behind do not change the parts. -/
theorem splitOutside_append_blank (hsep : isBlank sep = false) {b : List Char} (hb : Blank b)
    (cs : List Char) : splitOutside sep (cs ++ b) = splitOutside sep cs := by
  induction b generalizing cs with
  | nil => rw [List.append_nil]
  | cons c b ih =>
    have hc : isBlank c = true := hb c List.mem_cons_self
    have hlast : splitOutside sep (cs ++ [c]) = splitOutside sep cs := by
      have h := congrArg (List.map trimLeft) (map_trimRight_pieces_append hsep hc 0 cs)
      have hcomp : trimLeft ∘ trimRight = trim :=
        funext fun p => (Text.trim_eq_trimLeft_trimRight p).symm
      rwa [List.map_map, List.map_map, hcomp] at h
    have hassoc : cs ++ c :: b = (cs ++ [c]) ++ b := by simp
    rw [hassoc, ih (fun e he => hb e (List.mem_cons_of_mem c he)), hlast]

/-- Blanks around a text do not change its parts. -/
theorem splitOutside_trim (hsep : isBlank sep = false) (cs : List Char) :
    splitOutside sep (trim cs) = splitOutside sep cs := by
  obtain ⟨a, b, ha, hb, h⟩ := Text.exists_eq_pad_trim cs
  conv_rhs => rw [h]
  rw [splitOutside_blank_append hsep ha, splitOutside_append_blank hsep hb]

end Cutting

/-! ### Parentheses -/

open isWrapped (closesEarly)

/-- Characters other than parentheses do not count. -/
theorem closesEarly_cons {c : Char} (hopen : c ≠ '(') (hclose : c ≠ ')') (d : Nat)
    (cs : List Char) :
    closesEarly d (c :: cs) = closesEarly d cs := by
  simp [closesEarly, hopen, hclose]

/-- Inside parentheses a nested text closes none of those around it. -/
theorem closesEarly_append {p : Char → Bool} {cs : List Char} (h : Nested p cs) {d : Nat}
    (hd : 1 ≤ d) (rest : List Char) : closesEarly d (cs ++ rest) = closesEarly d rest := by
  induction h generalizing d rest with
  | nil => rfl
  | @char p c cs ho hc _ _ ih =>
    have hopen : c ≠ '(' := fun heq => by rw [heq] at ho; cases ho
    have hclose : c ≠ ')' := fun heq => by rw [heq] at hc; cases hc
    rw [List.cons_append, closesEarly_cons hopen hclose]
    exact ih hd rest
  | @group p o c inner rest' hoc _ _ ihin ih =>
    have hassoc : o :: (inner ++ c :: rest') ++ rest = o :: (inner ++ (c :: (rest' ++ rest))) := by
      simp
    rw [hassoc]
    by_cases hpar : o = '('
    · -- the depth goes up by one and comes back, and is never one at a closing parenthesis
      subst hpar
      obtain rfl : ')' = c := by simpa [closerOf?] using hoc
      have hne : (d + 1 == 1) = false := beq_false_of_ne (by omega)
      simp only [closesEarly, beq_self_eq_true, if_true]
      rw [ihin (by omega)]
      simp only [closesEarly, hne, Bool.false_and, Bool.false_or, Nat.add_sub_cancel]
      exact ih hd rest
    · -- brackets of the other kinds are not counted
      have ho : o ≠ ')' := fun heq => by rw [heq] at hoc; cases hoc
      have hc : c ≠ '(' ∧ c ≠ ')' := by
        unfold closerOf? at hoc
        split at hoc <;> cases hoc <;> first | decide | exact absurd rfl hpar
      rw [closesEarly_cons hpar ho, ihin hd, closesEarly_cons hc.1 hc.2]
      exact ih hd rest

/-- A nested text in parentheses is one group. -/
theorem isWrapped_group {p : Char → Bool} {cs : List Char} (h : Nested p cs) :
    isWrapped ('(' :: (cs ++ [')'])) = true := by
  have hearly : closesEarly 0 ('(' :: (cs ++ [')'])) = false := by
    simp only [closesEarly, beq_self_eq_true, if_true]
    rw [closesEarly_append h (by omega)]
    rfl
  have hlast : ('(' :: (cs ++ [')'])).getLast? = some ')' := by
    rw [← List.cons_append, List.getLast?_concat]
  simp [isWrapped, hearly, hlast]

/-- A text that does not begin with a parenthesis is no group. -/
theorem not_isWrapped_of_head {cs : List Char} (h : cs.head? ≠ some '(') :
    isWrapped cs = false := by
  simp [isWrapped, h]

/-- A text that does not end with a parenthesis is no group. -/
theorem not_isWrapped_of_getLast {cs : List Char} (h : cs.getLast? ≠ some ')') :
    isWrapped cs = false := by
  simp [isWrapped, h]

/-- A nested text with something behind it is no group: its first parenthesis is closed before. -/
theorem not_isWrapped_append {p : Char → Bool} {cs rest : List Char} (h : Nested p cs)
    (hcs : cs ≠ []) (hrest : rest ≠ []) : isWrapped (cs ++ rest) = false := by
  by_cases hhead : (cs ++ rest).head? = some '('
  · have hearly : closesEarly 0 (cs ++ rest) = true := by
      cases h with
      | nil => exact absurd rfl hcs
      | char ho _ _ _ =>
        simp only [List.cons_append, List.head?_cons, Option.some.injEq] at hhead
        subst hhead
        cases ho
      | @group _ o c inner rest' hoc hin _ =>
        simp only [List.cons_append, List.head?_cons, Option.some.injEq] at hhead
        subst hhead
        obtain rfl : ')' = c := by simpa [closerOf?] using hoc
        have hassoc : '(' :: (inner ++ ')' :: rest') ++ rest
            = '(' :: (inner ++ (')' :: (rest' ++ rest))) := by simp
        rw [hassoc]
        simp only [closesEarly, beq_self_eq_true, if_true]
        rw [closesEarly_append hin (by omega)]
        simp [closesEarly, hrest]
    simp [isWrapped, hearly]
  · exact not_isWrapped_of_head hhead

end TypeFacts.TypeText
