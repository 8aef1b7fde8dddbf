import Mathlib.Tactic.Common
import TypeFacts.Proofs.TypeText.Reading

/-!
# Letter case and plain words

A text in lower case may have ASCII letters that were none before: the Kelvin sign becomes a `k`,
and a capital `I` with a dot becomes an `i` with the dot behind it. No other character from `U+0080`
on does this. So a word of small ASCII letters without `k` comes from the same texts whether all
letters are put in lower case or only the ASCII ones (`lower_eq_iff`). The words of the type grammar
are such words.
-/

namespace TypeFacts.Text

/-- A small ASCII letter that is the lower-case form of ASCII letters only. -/
def IsPlainLetter (c : Char) : Prop :=
  'a' ≤ c ∧ c ≤ 'z' ∧ c ≠ 'k'

instance : DecidablePred IsPlainLetter :=
  fun c => inferInstanceAs (Decidable ('a' ≤ c ∧ c ≤ 'z' ∧ c ≠ 'k'))

theorem IsPlainLetter.bounds {c : Char} (h : IsPlainLetter c) : 0 < c.toNat ∧ c.toNat < 0x80 :=
  ⟨Nat.lt_of_lt_of_le (by decide : 0 < 'a'.toNat) h.1,
    Nat.lt_of_le_of_lt (show c.toNat ≤ 'z'.toNat from h.2.1) (by decide)⟩

set_option maxRecDepth 4000 in
/-- A run of letters has its partners beyond ASCII, the Kelvin sign apart. -/
private theorem lowerRuns_beyond : ∀ r ∈ lowerRuns,
    0x80 ≤ (r.1 : Int) + r.2.2.2 ∨ r.1 = 0x212A ∧ r.2.1 = 0x212A ∧ r.2.2.2 = -8383 := by
  decide

/-- A number that is no code point stands for the character zero. -/
theorem toNat_ofNat_cases (n : Nat) : (Char.ofNat n).toNat = n ∨ (Char.ofNat n).toNat = 0 := by
  by_cases h : n.isValidChar
  · left
    rw [Char.ofNat, dif_pos h]
    rfl
  · right
    rw [Char.ofNat, dif_neg h]
    rfl

theorem lowerChar_of_beyond {c : Char} (hc : 0x80 ≤ c.toNat) : lowerChar c = c ∨
    ∃ r ∈ lowerRuns, r.1 ≤ c.toNat ∧ c.toNat ≤ r.2.1 ∧
      lowerChar c = Char.ofNat ((c.toNat : Int) + r.2.2.2).toNat := by
  simp only [lowerChar, if_neg (Nat.not_lt.mpr hc)]
  split
  · next first last step shift hfind =>
    have hrun := List.find?_some hfind
    simp only [Bool.and_eq_true, decide_eq_true_eq] at hrun
    exact .inr ⟨_, List.mem_of_find?_eq_some hfind, hrun.1.1, hrun.1.2, rfl⟩
  · exact .inl rfl

/-- From `U+0080` on, no character has a plain letter for its lower-case form. -/
theorem not_isPlainLetter_lowerChar {c : Char} (hc : 0x80 ≤ c.toNat) :
    ¬ IsPlainLetter (lowerChar c) := by
  intro h
  have hbounds := h.bounds
  rcases lowerChar_of_beyond hc with hself | ⟨r, hr, hfirst, hlast, hlower⟩
  · rw [hself] at hbounds
    omega
  · rcases lowerRuns_beyond r hr with hbeyond | ⟨hkelvin, hkelvin', hshift⟩
    · rw [hlower] at hbounds
      rcases toNat_ofNat_cases ((c.toNat : Int) + r.2.2.2).toNat with hpartner | hzero <;> omega
    · have hk : ((c.toNat : Int) + r.2.2.2).toNat = 'k'.toNat := by
        rw [hshift, show c.toNat = 0x212A by omega]
        rfl
      rw [hlower, hk, Char.ofNat_toNat] at h
      exact h.2.2 rfl

/-- A character from `U+0080` on leaves a mark in the lower-case form of the text. -/
theorem exists_mem_lowerAfter {c : Char} (hc : 0x80 ≤ c.toNat) (before cs : List Char) :
    ∃ d ∈ lowerAfter before (c :: cs), ¬ IsPlainLetter d := by
  simp only [lowerAfter, List.mem_append]
  split_ifs
  · exact ⟨_, .inl List.mem_cons_self, by decide⟩
  · exact ⟨_, .inl List.mem_cons_self, by decide⟩
  · exact ⟨_, .inl (List.mem_cons_of_mem _ List.mem_cons_self), by decide⟩
  · exact ⟨_, .inl List.mem_cons_self, not_isPlainLetter_lowerChar hc⟩

theorem lowerAfter_eq_iff {w : List Char} (hw : ∀ c ∈ w, IsPlainLetter c) (before cs : List Char) :
    lowerAfter before cs = w ↔ cs.map Char.toLower = w := by
  induction cs generalizing before w with
  | nil => rfl
  | cons c cs ih =>
    by_cases hc : c.toNat < 0x80
    · have hsmall : lowerAfter before (c :: cs) = c.toLower :: lowerAfter (c :: before) cs := by
        have hsigma : c.toNat ≠ 0x3A3 := by omega
        have hdotted : c.toNat ≠ 0x130 := by omega
        simp [lowerAfter, lowerChar, hsigma, hdotted, hc]
      rw [hsmall, List.map_cons]
      cases w with
      | nil => simp
      | cons d w => rw [List.cons_eq_cons, List.cons_eq_cons, ih fun x hx => hw x (by simp [hx])]
    · -- on both sides there is a character that the word does not have
      obtain ⟨d, hd, hplain⟩ := exists_mem_lowerAfter (Nat.not_lt.mp hc) before cs
      have hself : c.toLower = c :=
        TypeText.toLower_eq_self fun h => hc (Nat.lt_of_le_of_lt h.2 (by decide))
      refine iff_of_false (fun heq => hplain (hw d (heq ▸ hd))) fun heq => ?_
      exact hc (hw c (heq ▸ by simp [hself])).bounds.2

/-- A plain word is the lower-case form of a text exactly if it is so for the ASCII letters. -/
theorem lower_eq_iff {s w : String} (hw : ∀ c ∈ w.toList, IsPlainLetter c) :
    lower s = w ↔ asciiLower s = w := by
  have hlists : ∀ cs : List Char, String.ofList cs = w ↔ cs = w.toList := fun cs =>
    ⟨fun h => by rw [← h, String.toList_ofList], fun h => by rw [h, String.ofList_toList]⟩
  rw [lower, asciiLower, hlists, hlists, lowerAfter_eq_iff hw]

end TypeFacts.Text
