import Mathlib.Data.List.Basic
import Mathlib.Data.List.TakeWhile
import Mathlib.Tactic.Common
import TypeFacts.TypeText.Parse

/-!
# Trimming and the classes of characters

Blanks are neither characters of names nor brackets, so trimming never reaches into a name or a
bracketed part. The tables of blanks and of word characters are compared range by range
(`not_isBlank_of_isNameChar`).

Main statements: trimming undoes blanks on either side (`trim_pad`), does nothing to a text without
outer blanks (`trim_eq_self`), and its two halves commute (`trim_eq_trimLeft_trimRight`). Trimming
changes nothing but blanks (`withoutBlanks_trim`). A text is cut at the first character of a class,
with what stands before it as its first piece (`splitAt_append_cons`), or in two at the first or the
last separator (`cutAt_append_cons`, `cutAtLast_append_cons`).
-/

namespace TypeFacts.Text

/-! ### Blanks on either side -/

/-- Nothing but blanks. -/
def Blank (cs : List Char) : Prop :=
  ∀ c ∈ cs, isBlank c = true

instance (a : List Char) : Decidable (Blank a) :=
  decidable_of_iff (a.all isBlank = true) List.all_eq_true

theorem Blank.nil : Blank [] := by
  intro c hc
  cases hc

theorem Blank.append {a b : List Char} (ha : Blank a) (hb : Blank b) : Blank (a ++ b) := by
  intro c hc
  rcases List.mem_append.mp hc with h | h
  · exact ha c h
  · exact hb c h

/-- Blanks in front are dropped. -/
theorem trimLeft_append_of_blank {a : List Char} (ha : Blank a) (cs : List Char) :
    trimLeft (a ++ cs) = trimLeft cs :=
  List.dropWhile_append_of_pos ha

theorem trimLeft_eq_nil_of_blank {a : List Char} (ha : Blank a) : trimLeft a = [] := by
  have h := trimLeft_append_of_blank ha []
  rwa [List.append_nil] at h

/-- Blanks behind are dropped. -/
theorem trimRight_append_of_blank {b : List Char} (hb : Blank b) (cs : List Char) :
    trimRight (cs ++ b) = trimRight cs := by
  have hrev : ∀ c ∈ b.reverse, isBlank c = true := fun c hc => hb c (List.mem_reverse.mp hc)
  rw [trimRight, List.reverse_append, List.dropWhile_append_of_pos hrev, trimRight]

/-- The blanks that are dropped in front. -/
theorem exists_eq_append_trimLeft (cs : List Char) : ∃ a, Blank a ∧ cs = a ++ trimLeft cs := by
  refine ⟨cs.takeWhile isBlank, fun c hc => ?_, ?_⟩
  · exact List.all_eq_true.mp List.all_takeWhile c hc
  · exact List.takeWhile_append_dropWhile.symm

/-- The blanks that are dropped at the end. -/
theorem exists_eq_trimRight_append (cs : List Char) : ∃ b, Blank b ∧ cs = trimRight cs ++ b := by
  obtain ⟨a, ha, h⟩ := exists_eq_append_trimLeft cs.reverse
  refine ⟨a.reverse, fun c hc => ha c (List.mem_reverse.mp hc), ?_⟩
  have hr := congrArg List.reverse h
  rw [List.reverse_reverse, List.reverse_append] at hr
  exact hr

/-- A text that does not begin with a blank keeps its front. -/
theorem trimLeft_eq_self {cs : List Char} (h : ∀ c ∈ cs.head?, isBlank c = false) :
    trimLeft cs = cs := by
  cases cs with
  | nil => rfl
  | cons c cs =>
    have hc : isBlank c = false := h c rfl
    exact List.dropWhile_cons_of_neg (by simp [hc])

/-- A text that does not end with a blank keeps its end. -/
theorem trimRight_eq_self {cs : List Char} (h : ∀ c ∈ cs.getLast?, isBlank c = false) :
    trimRight cs = cs := by
  have hrev : trimLeft cs.reverse = cs.reverse :=
    trimLeft_eq_self fun c hc => h c (by rwa [List.head?_reverse] at hc)
  rw [trimRight, ← trimLeft, hrev, List.reverse_reverse]

/-- A text without blanks at its ends stays as it is. -/
theorem trim_eq_self {cs : List Char} (hfirst : ∀ c ∈ cs.head?, isBlank c = false)
    (hlast : ∀ c ∈ cs.getLast?, isBlank c = false) : trim cs = cs := by
  rw [trim, trimLeft_eq_self hfirst, trimRight_eq_self hlast]

/-- Trimmed on the left, a text does not begin with a blank. -/
theorem head?_trimLeft_not_blank (cs : List Char) :
    ∀ c ∈ (trimLeft cs).head?, isBlank c = false := by
  intro c hc
  have h := List.head?_dropWhile_not isBlank cs
  rw [trimLeft] at hc
  rw [Option.mem_def.mp hc] at h
  simpa using h

theorem getLast?_trimRight_not_blank (cs : List Char) :
    ∀ c ∈ (trimRight cs).getLast?, isBlank c = false := by
  intro c hc
  rw [trimRight, List.getLast?_reverse] at hc
  exact head?_trimLeft_not_blank cs.reverse c hc

/-- Which end is trimmed first does not matter. -/
theorem trim_eq_trimLeft_trimRight (cs : List Char) : trim cs = trimLeft (trimRight cs) := by
  obtain ⟨b, hb, hcs⟩ := exists_eq_trimRight_append cs
  by_cases hnil : trimLeft (trimRight cs) = []
  · -- only blanks are left of the text, so both orders leave nothing
    have hall : trimLeft cs = [] := by
      rw [hcs, trimLeft, List.dropWhile_append, ← trimLeft, hnil]
      exact trimLeft_eq_nil_of_blank hb
    rw [trim, hall, hnil]
    rfl
  · have hsplit : trimLeft cs = trimLeft (trimRight cs) ++ b := by
      have hne : (trimLeft (trimRight cs)).isEmpty = false := by simpa using hnil
      calc trimLeft cs = trimLeft (trimRight cs ++ b) := by rw [← hcs]
        _ = trimLeft (trimRight cs) ++ b := by
          rw [trimLeft, List.dropWhile_append, ← trimLeft, hne]
          rfl
    rw [trim, hsplit, trimRight_append_of_blank hb]
    refine trimRight_eq_self fun c hc => ?_
    -- the last character of a suffix is the last character of the text
    obtain ⟨a, _, ha⟩ := exists_eq_append_trimLeft (trimRight cs)
    refine getLast?_trimRight_not_blank cs c ?_
    rw [ha, List.getLast?_append, Option.mem_def.mp hc]
    rfl

/-- Blanks on either side do not count. -/
theorem trim_pad {a b : List Char} (ha : Blank a) (hb : Blank b) (cs : List Char) :
    trim (a ++ (cs ++ b)) = trim cs := by
  rw [trim, trimLeft_append_of_blank ha, ← trim, trim_eq_trimLeft_trimRight,
    trimRight_append_of_blank hb, ← trim_eq_trimLeft_trimRight]

/-- Blanks behind do not matter to trimming. -/
theorem trim_append_blank {b : List Char} (hb : Blank b) (cs : List Char) :
    trim (cs ++ b) = trim cs :=
  trim_pad Blank.nil hb cs

/-- Blanks in front do not matter to trimming. -/
theorem trim_blank_append {a : List Char} (ha : Blank a) (cs : List Char) :
    trim (a ++ cs) = trim cs := by
  have h := trim_pad ha Blank.nil cs
  rwa [List.append_nil] at h

/-- A trimmed text has no blanks at its ends. -/
theorem ends_of_trim {cs : List Char} (h : trim cs = cs) :
    (∀ c ∈ cs.head?, isBlank c = false) ∧ ∀ c ∈ cs.getLast?, isBlank c = false := by
  constructor
  · rw [← h, trim_eq_trimLeft_trimRight]
    exact head?_trimLeft_not_blank _
  · rw [← h, trim]
    exact getLast?_trimRight_not_blank _

/-- Two trimmed texts with a character between them. -/
theorem trim_append_cons {a b : List Char} {c : Char} (ha : trim a = a) (hane : a ≠ [])
    (hb : trim b = b) (hbne : b ≠ []) : trim (a ++ c :: b) = a ++ c :: b := by
  refine trim_eq_self (fun d hd => ?_) fun d hd => ?_
  · rw [List.head?_append_of_ne_nil _ hane] at hd
    exact (ends_of_trim ha).1 d hd
  · rw [List.getLast?_append_of_ne_nil _ (List.cons_ne_nil _ _), ← List.singleton_append,
      List.getLast?_append_of_ne_nil _ hbne] at hd
    exact (ends_of_trim hb).2 d hd

/-- A text is its trimmed form with blanks on either side. -/
theorem exists_eq_pad_trim (cs : List Char) :
    ∃ a b, Blank a ∧ Blank b ∧ cs = a ++ (trim cs ++ b) := by
  obtain ⟨a, ha, h⟩ := exists_eq_append_trimLeft cs
  obtain ⟨b, hb, h'⟩ := exists_eq_trimRight_append (trimLeft cs)
  exact ⟨a, b, ha, hb, by rw [trim, ← h', ← h]⟩

@[simp] theorem trim_trim (cs : List Char) : trim (trim cs) = trim cs := by
  obtain ⟨a, b, ha, hb, h⟩ := exists_eq_pad_trim cs
  conv_rhs => rw [h, trim_pad ha hb]

theorem trimRight_cons {c : Char} (h : isBlank c = false) (cs : List Char) :
    trimRight (c :: cs) = c :: trimRight cs := by
  rw [trimRight, trimRight, List.reverse_cons, List.dropWhile_append]
  split
  · next hnil =>
    rw [List.isEmpty_iff.mp hnil]
    simp [h]
  · simp

/-- Behind a first character that is no blank only the end is trimmed. -/
theorem trim_cons {c : Char} (h : isBlank c = false) (cs : List Char) :
    trim (c :: cs) = c :: trimRight cs := by
  have hleft : trimLeft (c :: cs) = c :: cs := trimLeft_eq_self fun d hd => by
    obtain rfl : c = d := by simpa using hd
    exact h
  rw [trim, hleft, trimRight_cons h]

@[simp] theorem trim_trimRight (cs : List Char) : trim (trimRight cs) = trim cs := by
  obtain ⟨b, hb, h⟩ := exists_eq_trimRight_append cs
  conv_rhs => rw [h]
  rw [trim_append_blank hb]

/-- A trimmed text begins with the first character that is no blank. -/
theorem head?_trim (cs : List Char) : (trim cs).head? = cs.find? fun c => !isBlank c := by
  rw [List.find?_not_eq_head?_dropWhile, ← trimLeft, trim]
  cases hl : trimLeft cs with
  | nil => rfl
  | cons c rest =>
    have hc : isBlank c = false := head?_trimLeft_not_blank cs c (by rw [hl]; rfl)
    rw [trimRight_cons hc, List.head?_cons, List.head?_cons]

/-! ### Texts without their blanks -/

/-- The characters of a text that are no blanks. -/
def withoutBlanks (cs : List Char) : List Char :=
  cs.filter fun c => !isBlank c

theorem withoutBlanks_append (cs ds : List Char) :
    withoutBlanks (cs ++ ds) = withoutBlanks cs ++ withoutBlanks ds :=
  List.filter_append cs ds

/-- Nothing is left of blanks. -/
theorem withoutBlanks_of_blank {a : List Char} (ha : Blank a) : withoutBlanks a = [] :=
  List.filter_eq_nil_iff.mpr fun c hc => by simp [ha c hc]

@[simp] theorem withoutBlanks_trimLeft (cs : List Char) :
    withoutBlanks (trimLeft cs) = withoutBlanks cs := by
  obtain ⟨a, ha, h⟩ := exists_eq_append_trimLeft cs
  conv_rhs => rw [h]
  rw [withoutBlanks_append, withoutBlanks_of_blank ha, List.nil_append]

@[simp] theorem withoutBlanks_trim (cs : List Char) :
    withoutBlanks (trim cs) = withoutBlanks cs := by
  obtain ⟨a, b, ha, hb, h⟩ := exists_eq_pad_trim cs
  conv_rhs => rw [h]
  rw [withoutBlanks_append, withoutBlanks_append, withoutBlanks_of_blank ha,
    withoutBlanks_of_blank hb,
    List.nil_append, List.append_nil]

/-- What is kept of texts that are joined by a character that is kept. -/
theorem filter_intercalate {keep : Char → Bool} {sep : Char} (hsep : keep sep = true)
    (texts : List (List Char)) :
    ([sep].intercalate texts).filter keep = [sep].intercalate (texts.map (List.filter keep)) := by
  induction texts with
  | nil => rfl
  | cons text texts ih =>
    cases texts with
    | nil => simp [List.intercalate_singleton]
    | cons next texts =>
      rw [List.intercalate_cons_cons, List.filter_append, List.filter_append, ih,
        List.filter_cons_of_pos hsep, List.filter_nil]
      simp [List.intercalate_cons_cons]

/-! ### Cutting -/

/-- A row without a character of the class is one piece. -/
theorem splitAt_of_forall {p : Char → Bool} {cs : List Char} (h : ∀ c ∈ cs, p c = false) :
    splitAt p cs = [cs] := by
  induction cs with
  | nil => rfl
  | cons c cs ih =>
    rw [List.forall_mem_cons] at h
    rw [splitAt, h.1, ih h.2]
    rfl

/-- A text is cut behind a row without a character of the class. -/
theorem splitAt_append_cons {p : Char → Bool} {cs : List Char} {sep : Char}
    (h : ∀ c ∈ cs, p c = false) (hsep : p sep = true) (rest : List Char) :
    splitAt p (cs ++ sep :: rest) = cs :: splitAt p rest := by
  induction cs with
  | nil => rw [List.nil_append, splitAt, if_pos hsep]
  | cons c cs ih =>
    rw [List.forall_mem_cons] at h
    rw [List.cons_append, splitAt, h.1, ih h.2]
    rfl

/-- A text that is cut consists of the two parts with the separator between them. -/
theorem eq_of_cutAt {sep : Char} {cs before after : List Char}
    (h : cutAt sep cs = some (before, after)) : cs = before ++ sep :: after := by
  unfold cutAt at h
  split at h
  · cases h
  · next c rest hdrop =>
    obtain ⟨rfl, rfl⟩ := Prod.mk.inj (Option.some.inj h)
    have hc : c = sep := by
      have hhead := List.head?_dropWhile_not (· != sep) cs
      rw [hdrop] at hhead
      simpa using hhead
    rw [hc] at hdrop
    rw [← hdrop, List.takeWhile_append_dropWhile]

/-- The same holds of a text that is cut at the last separator. -/
theorem eq_of_cutAtLast {sep : Char} {cs before after : List Char}
    (h : cutAtLast sep cs = some (before, after)) : cs = before ++ sep :: after := by
  obtain ⟨⟨a, b⟩, hcut, heq⟩ := Option.map_eq_some_iff.mp h
  obtain ⟨rfl, rfl⟩ := Prod.mk.inj heq
  have hreverse := congrArg List.reverse (eq_of_cutAt hcut)
  simpa using hreverse

/-- A text without the separator is not cut. -/
theorem cutAt_of_forall {sep : Char} {cs : List Char} (h : ∀ c ∈ cs, c ≠ sep) :
    cutAt sep cs = none := by
  have hdrop : cs.dropWhile (· != sep) = [] :=
    List.dropWhile_eq_nil_iff.mpr fun c hc => by simpa using h c hc
  rw [cutAt, hdrop]

/-- A text is cut at the first separator. -/
theorem cutAt_append_cons {sep : Char} {before : List Char} (h : ∀ c ∈ before, c ≠ sep)
    (after : List Char) : cutAt sep (before ++ sep :: after) = some (before, after) := by
  have hall : ∀ c ∈ before, (c != sep) = true := fun c hc => by simpa using h c hc
  have htake : (before ++ sep :: after).takeWhile (· != sep) = before := by
    rw [List.takeWhile_append_of_pos hall, List.takeWhile_cons_of_neg (by simp), List.append_nil]
  have hdrop : (before ++ sep :: after).dropWhile (· != sep) = sep :: after := by
    rw [List.dropWhile_append_of_pos hall, List.dropWhile_cons_of_neg (by simp)]
  rw [cutAt, htake, hdrop]

/-- A text without the separator is not cut at the last one, either. -/
theorem cutAtLast_of_forall {sep : Char} {cs : List Char} (h : ∀ c ∈ cs, c ≠ sep) :
    cutAtLast sep cs = none := by
  rw [cutAtLast, cutAt_of_forall fun c hc => h c (List.mem_reverse.mp hc), Option.map_none]

/-- It is cut at the last separator if this is asked for. -/
theorem cutAtLast_append_cons {sep : Char} {after : List Char} (h : ∀ c ∈ after, c ≠ sep)
    (before : List Char) : cutAtLast sep (before ++ sep :: after) = some (before, after) := by
  have hreverse : (before ++ sep :: after).reverse = after.reverse ++ sep :: before.reverse := by
    simp
  rw [cutAtLast, hreverse, cutAt_append_cons fun c hc => h c (List.mem_reverse.mp hc)]
  simp

/-! ### Backslashes in front -/

@[simp] theorem dropBackslashes_cons_backslash (cs : List Char) :
    dropBackslashes ('\\' :: cs) = dropBackslashes cs := by
  simp [dropBackslashes]

/-- A text without a backslash in front stays as it is. -/
theorem dropBackslashes_eq_self {cs : List Char} (h : cs.head? ≠ some '\\') :
    dropBackslashes cs = cs := by
  cases cs with
  | nil => rfl
  | cons c cs =>
    have hc : c ≠ '\\' := by simpa using h
    simp [dropBackslashes, hc]

/-! ### Classes of characters -/

/-- Two tables of ranges without a common number. -/
theorem not_inRanges_of_disjoint {s t : List (Nat × Nat)} {n : Nat}
    (hdisj : ∀ r ∈ s, ∀ q ∈ t, r.2 < q.1 ∨ q.2 < r.1) (hs : inRanges s n = true) :
    inRanges t n = false := by
  by_contra ht
  simp only [inRanges, List.any_eq_true, Bool.and_eq_true, decide_eq_true_eq,
    Bool.not_eq_false] at hs ht
  obtain ⟨r, hr, hr₁, hr₂⟩ := hs
  obtain ⟨q, hq, hq₁, hq₂⟩ := ht
  rcases hdisj r hr q hq with h | h <;> omega

/-- The tables of blanks and of word characters have nothing in common. -/
theorem blankRanges_disjoint_wordRanges :
    ∀ r ∈ blankRanges, ∀ q ∈ wordRanges, r.2 < q.1 ∨ q.2 < r.1 := by
  decide +kernel

private theorem not_isBlank_ascii : ∀ n < 0x80, isWord (Char.ofNat n) = true →
    isBlank (Char.ofNat n) = false := by
  decide +kernel

/-- A character of a name is no blank. -/
theorem not_isBlank_of_isWord {c : Char} (h : isWord c = true) : isBlank c = false := by
  by_cases hascii : c.toNat < 0x80
  · have hc := not_isBlank_ascii c.toNat hascii
    rw [Char.ofNat_toNat] at hc
    exact hc h
  · unfold isWord at h
    unfold isBlank
    simp only [hascii, if_false] at h ⊢
    refine not_inRanges_of_disjoint (fun r hr q hq => ?_) h
    exact (blankRanges_disjoint_wordRanges q hq r hr).symm

end TypeFacts.Text

namespace TypeFacts.TypeText

open Text (Blank isBlank trim trimLeft)

/-- A character of a name is no blank. -/
theorem not_isBlank_of_isNameChar {c : Char} (h : isNameChar c = true) : isBlank c = false := by
  rcases Bool.or_eq_true _ _ ▸ h with h | h
  · exact Text.not_isBlank_of_isWord h
  · rw [beq_iff_eq.mp h]
    decide

/-- A bracket is no blank. -/
theorem not_isBlank_of_isOpener {c : Char} (h : isOpener c = true) : isBlank c = false := by
  simp only [isOpener, Bool.or_eq_true, beq_iff_eq] at h
  rcases h with ((rfl | rfl) | rfl) | rfl <;> decide

/-- A bracket is no blank. -/
theorem not_isBlank_of_isCloser {c : Char} (h : isCloser c = true) : isBlank c = false := by
  simp only [isCloser, Bool.or_eq_true, beq_iff_eq] at h
  rcases h with ((rfl | rfl) | rfl) | rfl <;> decide

end TypeFacts.TypeText
