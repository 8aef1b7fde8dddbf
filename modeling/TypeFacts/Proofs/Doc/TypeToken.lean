import TypeFacts.Proofs.Doc.TypeEnd
import TypeFacts.Proofs.TypeText.RoundTrip

/-!
# Finding the end of a type

The type in front of a content ends at the first blank outside of brackets, unless a bar stands
beside that blank. A text whose brackets match is passed over as a whole (`findTypeEnd_append`), and
the text of a canonical type has blanks only in its brackets and ends with no bar
(`Canonical.isToken_render`). So the type that was written in front of a content is cut off at its
end, whatever brackets, bars and blanks stand in the text behind it; only a bar in front of that
text would be taken for a part of the type (`splitTypeChars_spaced`). The plain spaces of the type
may get lost on the way.
-/

namespace TypeFacts.Doc

open Text (isBlank trim trimLeft)
open TypeText (Nested isNameChar isOpener isCloser)

/-! ### Passing over nested brackets -/

/-- A text whose brackets match is passed over, if no blank stands outside of all brackets. -/
theorem findTypeEnd_append {p : Char → Bool} {cs : List Char} (h : Nested p cs) {depth : Nat}
    (hp : depth = 0 → ∀ c, p c = true → isBlank c = false) (before rest : List Char) :
    findTypeEnd before depth (cs ++ rest) = findTypeEnd (cs.reverse ++ before) depth rest := by
  -- inside of brackets the depth is not zero, so the condition on blanks is needed outside only
  induction h generalizing depth before rest with
  | nil => rfl
  | @char p c cs ho hc hpc _ ih =>
    have hgo : (isBlank c && depth == 0) = false := by
      cases depth with
      | zero => simp [hp rfl c hpc]
      | succ n => simp
    rw [List.cons_append, findTypeEnd, ho, hc, hgo]
    simp only [Bool.false_eq_true, if_false]
    rw [ih hp, List.reverse_cons, List.append_assoc, List.singleton_append]
  | @group p o c inner after hoc _ _ ihinner ihafter =>
    have ho := TypeText.isOpener_of_closerOf? hoc
    have hc := TypeText.isCloser_of_closerOf? hoc
    have hassoc :
        o :: (inner ++ c :: after) ++ rest = o :: (inner ++ c :: (after ++ rest)) := by simp
    rw [hassoc, findTypeEnd, if_pos ho, ihinner (by simp), findTypeEnd,
      TypeText.not_isOpener_of_isCloser hc, if_pos hc, Nat.add_sub_cancel]
    simp only [Bool.false_eq_true, if_false]
    rw [ihafter hp]
    simp

/-! ### The texts of types -/

/-- The characters of a type outside of its brackets. -/
def inType (c : Char) : Bool :=
  isNameChar c || c == '?' || c == '|'

theorem inType_of_isNameChar {c : Char} (h : isNameChar c = true) : inType c = true := by
  simp [inType, h]

theorem not_isBlank_of_inType {c : Char} (h : inType c = true) : isBlank c = false := by
  simp only [inType, Bool.or_eq_true, beq_iff_eq] at h
  rcases h with (h | rfl) | rfl
  · exact TypeText.not_isBlank_of_isNameChar h
  · decide
  · decide

/-- A text that is passed over as one type: it does not begin with a bracket, it does not end with a
bar, and it has no blanks but plain spaces in its brackets. -/
structure IsToken (cs : List Char) : Prop where
  nested : Nested inType cs
  head : ∃ c, cs.head? = some c ∧ inType c = true
  last : ∃ c, cs.getLast? = some c ∧ c ≠ '|'
  blanks : ∀ c ∈ cs, isBlank c = true → c = ' '

namespace IsToken

variable {cs ds : List Char}

theorem ne_nil (h : IsToken cs) : cs ≠ [] := by
  obtain ⟨c, hc, -⟩ := h.head
  rintro rfl
  cases hc

theorem trim_eq (h : IsToken cs) : trim cs = cs :=
  h.nested.trim_eq_self fun _ => not_isBlank_of_inType

/-- A type ends neither with a blank nor with a bar. -/
theorem exists_getLast (h : IsToken cs) : ∃ c, cs.getLast? = some c ∧ isBlank c = false ∧
    c ≠ '|' := by
  obtain ⟨c, hc, hbar⟩ := h.last
  refine ⟨c, hc, ?_, hbar⟩
  exact (h.nested.getLast c hc).elim TypeText.not_isBlank_of_isCloser not_isBlank_of_inType

theorem of_nameChars (hne : cs ≠ []) (h : ∀ c ∈ cs, isNameChar c = true) : IsToken cs where
  nested := (TypeText.nested_of_nameChars h).mono fun _ => inType_of_isNameChar
  head := by
    obtain ⟨c, cs, rfl⟩ := List.exists_cons_of_ne_nil hne
    exact ⟨c, rfl, inType_of_isNameChar (h c List.mem_cons_self)⟩
  last := by
    refine ⟨cs.getLast hne, List.getLast?_eq_some_getLast hne, fun hbar => ?_⟩
    have hname := h _ (List.getLast_mem hne)
    rw [hbar] at hname
    exact absurd hname (by decide)
  blanks := fun c hc hblank => by
    rw [TypeText.not_isBlank_of_isNameChar (h c hc)] at hblank
    cases hblank

/-- A question mark in front of a type. -/
theorem question (h : IsToken cs) : IsToken ('?' :: cs) where
  nested := .char (by decide) (by decide) (by decide) h.nested
  head := ⟨'?', rfl, by decide⟩
  last := by
    obtain ⟨c, hc, hbar⟩ := h.last
    exact ⟨c, by rw [List.getLast?_cons, hc]; rfl, hbar⟩
  blanks := List.forall_mem_cons.mpr ⟨fun hblank => absurd hblank (by decide), h.blanks⟩

/-- The word for arrays with arguments. -/
theorem arguments {p : Char → Bool} (h : Nested p cs)
    (hblanks : ∀ c ∈ cs, isBlank c = true → c = ' ') :
    IsToken ("array".toList ++ '<' :: (cs ++ ['>'])) where
  nested := (TypeText.nested_of_nameChars (List.all_eq_true.mp (by decide))
    |>.mono fun _ => inType_of_isNameChar).append (.bracketed rfl h)
  head := ⟨'a', rfl, by decide⟩
  last :=
    ⟨'>', by rw [List.getLast?_append, List.getLast?_cons, List.getLast?_concat]; rfl, by decide⟩
  blanks := fun c hc hblank => by
    simp only [List.mem_append, List.mem_cons, List.not_mem_nil, or_false] at hc
    rcases hc with hc | rfl | hc | rfl
    · have hword : "array".toList.all (fun c => !isBlank c) = true := by decide
      have hnot := List.all_eq_true.mp hword c hc
      rw [hblank] at hnot
      cases hnot
    · exact absurd hblank (by decide)
    · exact hblanks c hc hblank
    · exact absurd hblank (by decide)

/-- Two types joined by a bar. -/
theorem join (h : IsToken cs) (h' : IsToken ds) : IsToken (cs ++ '|' :: ds) where
  nested := h.nested.append (.char (by decide) (by decide) (by decide) h'.nested)
  head := by
    obtain ⟨c, hc, hin⟩ := h.head
    exact ⟨c, by rw [List.head?_append_of_ne_nil _ h.ne_nil, hc], hin⟩
  last := by
    obtain ⟨c, hc, hbar⟩ := h'.last
    exact ⟨c, by rw [List.getLast?_append, List.getLast?_cons, hc]; rfl, hbar⟩
  blanks := fun c hc hblank => by
    rcases List.mem_append.mp hc with hc | hc
    · exact h.blanks c hc hblank
    · rcases List.mem_cons.mp hc with rfl | hc
      · exact absurd hblank (by decide)
      · exact h'.blanks c hc hblank

theorem intercalate {texts : List (List Char)} (hne : texts ≠ [])
    (h : ∀ text ∈ texts, IsToken text) :
    IsToken (['|'].intercalate texts) := by
  induction texts with
  | nil => exact absurd rfl hne
  | cons text texts ih =>
    obtain ⟨htext, htexts⟩ := List.forall_mem_cons.mp h
    cases texts with
    | nil => rwa [List.intercalate_singleton]
    | cons next texts =>
      rw [List.intercalate_cons_cons, List.append_assoc, List.singleton_append]
      exact htext.join (ih (List.cons_ne_nil next texts) htexts)

theorem marked {text : String} (h : IsToken text.toList) (n : Bool) :
    IsToken (Ty.marked n text).toList := by
  unfold Ty.marked
  split
  · rw [String.toList_append]
    exact h.question
  · exact h

end IsToken

/-- The text of a canonical type is passed over as one type. -/
theorem Canonical.isToken_render {t : Ty} (h : TypeText.Canonical t) : IsToken t.render.toList := by
  have hword {w : String} (hw : TypeText.isReserved w = true) : IsToken w.toList := by
    have hlist : TypeText.isReserved (String.ofList w.toList) = true := by
      rwa [String.ofList_toList]
    obtain ⟨hne, hchars⟩ := TypeText.nameChars_of_isReserved hlist
    exact .of_nameChars hne hchars
  induction h with
  | scalar k n => exact (hword (by cases k <;> decide)).marked n
  | @named s n h =>
    exact (IsToken.of_nameChars (mt String.toList_eq_nil_iff.mp h.nonempty) h.chars).marked n
  | @array v n _ ih =>
    rw [Ty.render]
    refine IsToken.marked ?_ n
    split
    · exact hword (by decide)
    · have htext : ("array<" ++ v.render ++ ">").toList
          = "array".toList ++ '<' :: (v.render.toList ++ ['>']) := by simp
      rw [htext]
      exact .arguments ih.nested ih.blanks
  | @keyed k v n _ _ ihk ihv =>
    have htext : ("array<" ++ k.render ++ ", " ++ v.render ++ ">").toList
        = "array".toList
          ++ '<' :: ((k.render.toList ++ ',' :: ' ' :: v.render.toList) ++ ['>']) := by
      simp
    have hnested : Nested (fun _ => true) (k.render.toList ++ ',' :: ' ' :: v.render.toList) :=
      (ihk.nested.mono fun _ _ => rfl).append (.char (by decide) (by decide) rfl
        (.char (by decide) (by decide) rfl (ihv.nested.mono fun _ _ => rfl)))
    rw [Ty.render]
    refine IsToken.marked ?_ n
    rw [htext]
    refine .arguments hnested fun c hc hblank => ?_
    simp only [List.mem_append, List.mem_cons] at hc
    rcases hc with hc | rfl | rfl | hc
    · exact ihk.blanks c hc hblank
    · exact absurd hblank (by decide)
    · rfl
    · exact ihv.blanks c hc hblank
  | @union ms n hlen _ _ _ ih =>
    have hne : ms ≠ [] := List.ne_nil_of_length_pos (by omega)
    obtain ⟨xs, hperm, hxs, htext⟩ := TypeText.exists_render_union hne n
    have hnull : IsToken Ty.null.render.toList := hword (by decide)
    have hxms : ∀ x ∈ xs, IsToken x.render.toList := fun x hx => ih x (hperm.mem_iff.mp hx)
    rw [htext]
    refine .intercalate (by cases n <;> simp [hxs]) fun text hmem => ?_
    obtain ⟨x, hx, rfl⟩ := List.mem_map.mp hmem
    cases n with
    | false => exact hxms x hx
    | true =>
      rcases List.mem_append.mp hx with hx | hx
      · exact hxms x hx
      · rw [List.mem_singleton.mp hx]
        exact hnull

/-! ### A type in front of a content -/

/-- A text with another one behind it, if there is another one. -/
def spaced (a b : String) : String :=
  if b = "" then a else a ++ " " ++ b

theorem toList_spaced {b : String} (hb : b ≠ "") (a : String) :
    (spaced a b).toList = a.toList ++ ' ' :: b.toList := by
  rw [spaced, if_neg hb]
  simp

theorem trim_spaced {a b : String} (ha : trim a.toList = a.toList) (hne : a ≠ "")
    (hb : trim b.toList = b.toList) : trim (spaced a b).toList = (spaced a b).toList := by
  by_cases hempty : b = ""
  · rwa [spaced, if_pos hempty]
  · have hlist : a.toList ≠ [] := mt String.toList_eq_nil_iff.mp hne
    have hlist' : b.toList ≠ [] := mt String.toList_eq_nil_iff.mp hempty
    rw [toList_spaced hempty]
    exact Text.trim_append_cons ha hlist hb hlist'

/-- The blank behind a type ends it, if no bar follows. -/
theorem findTypeEnd_blank {cs ds : List Char} (hcs : IsToken cs) (hds : trimLeft ds = ds)
    (hbar : ds.head? ≠ some '|') :
    findTypeEnd cs.reverse 0 (' ' :: ds) = some (withoutSpaces cs, ds) := by
  obtain ⟨c, hlast, hblank, hc⟩ := hcs.exists_getLast
  have hhead : cs.reverse.head? = some c := by rw [List.head?_reverse, hlast]
  have htoken : cs.reverse.dropWhile isBlank = cs.reverse :=
    Text.trimLeft_eq_self fun d hd => by
      obtain rfl : c = d := Option.some.inj (hhead.symm.trans hd)
      exact hblank
  have hrest : trimLeft (' ' :: ds) = ds := by
    have hspace : isBlank ' ' = true := by decide
    rw [trimLeft, List.dropWhile_cons_of_pos hspace]
    exact hds
  have hopener : isOpener ' ' = false := by decide
  have hcloser : isCloser ' ' = false := by decide
  have hspace : (isBlank ' ' && (0 : Nat) == 0) = true := by decide
  rw [findTypeEnd, hopener, hcloser, if_pos hspace]
  simp only [Bool.false_eq_true, if_false, htoken, hrest, hhead]
  rw [if_neg (by simpa [hc] using hbar), List.reverse_reverse]

/-- A type is cut off in front of the text behind it; of its characters only blanks may get lost. -/
theorem splitTypeChars_spaced {a b : String} (ha : IsToken a.toList) (hb : trim b.toList = b.toList)
    (hbar : b.toList.head? ≠ some '|') :
    ∃ keep : Char → Bool, (∀ c, isBlank c = false → keep c = true) ∧
      splitTypeChars (spaced a b).toList = (a.toList.filter keep, b.toList) := by
  have hspaces : ∀ c, isBlank c = false → (c != ' ') = true := fun c => ne_space_of_not_isBlank
  have hne : a ≠ "" := fun heq => ha.ne_nil (by rw [heq]; rfl)
  have htrim := trim_spaced ha.trim_eq hne hb
  have hpass : ∀ rest, findTypeEnd [] 0 (a.toList ++ rest) = findTypeEnd a.toList.reverse 0 rest :=
    fun rest => by
      rw [findTypeEnd_append ha.nested (fun _ _ => not_isBlank_of_inType), List.append_nil]
  rw [splitTypeChars, htrim]
  by_cases hempty : b = ""
  · have hnone : findTypeEnd [] 0 (spaced a b).toList = none := by
      rw [spaced, if_pos hempty, ← List.append_nil a.toList, hpass, findTypeEnd]
    have htext : spaced a b = a := if_pos hempty
    simp only [hnone]
    rw [htext, hempty]
    split
    · exact ⟨(· != ' '), hspaces, rfl⟩
    · exact ⟨fun _ => true, fun _ _ => rfl, by rw [List.filter_true]; rfl⟩
  · have hleft : trimLeft b.toList = b.toList := Text.trimLeft_eq_self (Text.ends_of_trim hb).1
    have hsome :
        findTypeEnd [] 0 (spaced a b).toList = some (withoutSpaces a.toList, b.toList) := by
      rw [toList_spaced hempty, hpass, findTypeEnd_blank ha hleft hbar]
    simp only [hsome]
    exact ⟨(· != ' '), hspaces, rfl⟩

end TypeFacts.Doc
