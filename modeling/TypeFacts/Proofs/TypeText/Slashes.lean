import TypeFacts.Proofs.TypeText.Qualification

/-!
# Qualification in the global scope

Without a namespace and imports every name stands for itself, so qualification puts backslashes into
a text and changes nothing else (`slashed`). The reader cuts texts at joints, and at joints a text
and its slashed form are cut alike: what is built around a joint is slashed part by part
(`slashed_append`), and a joint of the slashed form comes from one of the text
(`exists_of_slashed`).

From these two facts follows that trimming (`trim_slashed`), splitting (`splitOutside_slashed`) and
the tests that the reader makes commute with slashing: groups (`isWrapped_slashed`), words and
shapes (`wordType?_slashed`), names with arguments (`genericParts?_slashed`) and brackets behind a
type (`endsWithBrackets_slashed`).
-/

namespace TypeFacts.TypeText

open Text (Blank isBlank trim trimLeft trimRight)

/-- A text with its class names qualified in the global scope. -/
def slashed (cs : List Char) : List Char :=
  qualifyAfter ({} : Scope).qualify none cs

/-! ### Only backslashes are added -/

/-- In the global scope a name that does not begin with a backslash stands for itself. -/
theorem qualify_global {s : String} (h : s.toList.head? ≠ some '\\') :
    ({} : Scope).qualify s = s := by
  unfold Scope.qualify
  split
  · next hs => exact absurd (by rw [hs]; rfl) h
  · rfl
  · split <;> rfl

/-- In the global scope a name gets one backslash in front or stays as it is. -/
theorem qualifyName_global (name : List Char) :
    qualifyName ({} : Scope).qualify name = name ∨
      qualifyName ({} : Scope).qualify name = '\\' :: name := by
  unfold qualifyName
  dsimp only
  split
  · exact Or.inl rfl
  · next hname =>
    have hhead : name.head? ≠ some '\\' := fun heq => hname (by simp [heq])
    refine Or.inr ?_
    rw [qualify_global (by simpa using hhead), String.toList_ofList,
      Text.dropBackslashes_eq_self hhead]

/-- The second text is the first with backslashes in front of some of its characters. -/
inductive Slashing : List Char → List Char → Prop
  | nil : Slashing [] []
  | char {cs ds : List Char} (c : Char) : Slashing cs ds → Slashing (c :: cs) (c :: ds)
  | slash {c : Char} {cs ds : List Char} : Slashing (c :: cs) ds → Slashing (c :: cs) ('\\' :: ds)

namespace Slashing

variable {cs ds : List Char}

/-- Backslashes may be added behind a part that stays as it is. -/
theorem append_left (h : Slashing cs ds) (name : List Char) :
    Slashing (name ++ cs) (name ++ ds) := by
  induction name with
  | nil => exact h
  | cons c name ih => exact ih.char c

/-- Nothing is lost when backslashes are added. -/
theorem sublist (h : Slashing cs ds) : cs.Sublist ds := by
  induction h with
  | nil => exact .slnil
  | char c _ ih => exact ih.cons_cons c
  | slash _ ih => exact ih.cons '\\'

/-- The other characters stay as they are. -/
theorem filter_eq (h : Slashing cs ds) : ds.filter (· != '\\') = cs.filter (· != '\\') := by
  induction h with
  | nil => rfl
  | char c _ ih => simp [List.filter_cons, ih]
  | slash _ ih => simpa using ih

/-- No backslash is added behind the last character. -/
theorem getLast?_eq (h : Slashing cs ds) : ds.getLast? = cs.getLast? := by
  induction h with
  | nil => rfl
  | char c _ ih => rw [List.getLast?_cons, List.getLast?_cons, ih]
  | slash _ ih => rw [List.getLast?_cons, ih, List.getLast?_cons]; rfl

/-- The first character stays unless a backslash is added in front of it. -/
theorem head?_eq (h : Slashing cs ds) : ds.head? = cs.head? ∨ ds.head? = some '\\' := by
  cases h with
  | nil => exact Or.inl rfl
  | char c _ => exact Or.inl rfl
  | slash _ => exact Or.inr rfl

end Slashing

/-- Qualifying in the global scope only adds backslashes. -/
theorem slashing_qualifyAfter (b : Option Char) (cs : List Char) :
    Slashing cs (qualifyAfter ({} : Scope).qualify b cs) := by
  -- the induction follows qualification, name by name
  fun_induction qualifyAfter ({} : Scope).qualify b cs with
  | case1 b => exact .nil
  | case2 b c rest hb ih => exact ih.char c
  | case3 b c rest hb name after hname ih =>
    have hkeep := ih.append_left name
    rw [append_of_nameAhead? hname] at hkeep
    rcases qualifyName_global name with heq | heq
    · rwa [heq]
    · rw [heq, List.cons_append]
      exact hkeep.slash
  | case4 b c rest hb hname ih => exact ih.char c

theorem slashing_slashed (cs : List Char) : Slashing cs (slashed cs) :=
  slashing_qualifyAfter none cs

@[simp] theorem slashed_nil : slashed [] = [] :=
  qualifyAfter_nil _ none

theorem slashed_eq_nil {cs : List Char} : slashed cs = [] ↔ cs = [] := by
  refine ⟨fun h => ?_, fun h => by rw [h, slashed_nil]⟩
  have hsublist := (slashing_slashed cs).sublist
  rwa [h, List.sublist_nil] at hsublist

/-- All characters but backslashes were there before. -/
theorem mem_of_mem_slashed {c : Char} {cs : List Char} (h : c ∈ slashed cs) (hc : c ≠ '\\') :
    c ∈ cs := by
  have hfilter : c ∈ (slashed cs).filter (· != '\\') := List.mem_filter.mpr ⟨h, by simpa using hc⟩
  rw [(slashing_slashed cs).filter_eq] at hfilter
  exact (List.mem_filter.mp hfilter).1

/-- A text whose slashed form has no backslash is that form. -/
theorem slashed_eq_self {cs : List Char} (h : '\\' ∉ slashed cs) : slashed cs = cs := by
  have hself : ∀ ds : List Char, '\\' ∉ ds → ds.filter (· != '\\') = ds := fun ds hds =>
    List.filter_eq_self.mpr fun c hc => by
      have hne : c ≠ '\\' := fun heq => hds (heq ▸ hc)
      simpa using hne
  have hcs : '\\' ∉ cs := fun hmem => h ((slashing_slashed cs).sublist.subset hmem)
  rw [← hself (slashed cs) h, (slashing_slashed cs).filter_eq, hself cs hcs]

/-! ### Cutting at joints -/

section Joints

variable {a b cs : List Char} {d : Char}

/-- At a joint the two sides get their backslashes apart from each other. -/
theorem slashed_append (hd : isJoint d = true) (a b : List Char) :
    slashed (a ++ d :: b) = slashed a ++ d :: slashed b :=
  qualifyAfter_append_joint _ hd none a b

theorem slashed_cons (hd : isJoint d = true) (b : List Char) :
    slashed (d :: b) = d :: slashed b :=
  qualifyAfter_joint _ hd none b

theorem ne_backslash_of_isJoint (hd : isJoint d = true) : d ≠ '\\' := by
  rintro rfl
  exact absurd hd (by decide)

/-- A text has no joint, or it begins with a row that has none and a joint. -/
theorem row_or_joint (cs : List Char) : (∀ c ∈ cs, isJoint c = false) ∨
    ∃ w d rest, (∀ c ∈ w, isJoint c = false) ∧ isJoint d = true ∧ cs = w ++ d :: rest := by
  induction cs with
  | nil => exact Or.inl (by simp)
  | cons c cs ih =>
    by_cases hc : isJoint c = true
    · exact Or.inr ⟨[], c, cs, by simp, hc, rfl⟩
    · have hc : isJoint c = false := by simpa using hc
      rcases ih with hrow | ⟨w, d, rest, hw, hd, rfl⟩
      · exact Or.inl (List.forall_mem_cons.mpr ⟨hc, hrow⟩)
      · exact Or.inr ⟨c :: w, d, rest, List.forall_mem_cons.mpr ⟨hc, hw⟩, hd, rfl⟩

/-- Induction along the joints of a text. -/
@[elab_as_elim] theorem joint_induction {P : List Char → Prop}
    (row : ∀ w, (∀ c ∈ w, isJoint c = false) → P w)
    (joint : ∀ w d rest, (∀ c ∈ w, isJoint c = false) → isJoint d = true → P rest →
      P (w ++ d :: rest)) (cs : List Char) : P cs := by
  induction hn : cs.length using Nat.strongRecOn generalizing cs with
  | _ n ih =>
    rcases row_or_joint cs with hrow | ⟨w, d, rest, hw, hd, rfl⟩
    · exact row cs hrow
    · rw [List.length_append, List.length_cons] at hn
      exact joint w d rest hw hd (ih rest.length (by omega) rest rfl)

/-- Adding backslashes makes no joints. -/
theorem isJoint_of_mem_slashed {c : Char} {w : List Char} (hw : ∀ c ∈ w, isJoint c = false)
    (hc : c ∈ slashed w) : isJoint c = false := by
  refine Bool.eq_false_iff.mpr fun hjoint => ?_
  rw [hw c (mem_of_mem_slashed hc (ne_backslash_of_isJoint hjoint))] at hjoint
  cases hjoint

/-- A joint of a slashed text comes from a joint of the text. -/
theorem exists_of_slashed (hd : isJoint d = true) (h : slashed cs = a ++ d :: b) :
    ∃ a' b', cs = a' ++ d :: b' ∧ slashed a' = a ∧ slashed b' = b := by
  induction cs using joint_induction generalizing a with
  | row w hw =>
    have hmem : d ∈ slashed w := by simp [h]
    rw [isJoint_of_mem_slashed hw hmem] at hd
    cases hd
  | joint w e rest hw he ih =>
    rw [slashed_append he, List.append_eq_append_iff] at h
    rcases h with ⟨x, rfl, hx⟩ | ⟨x, hx, hrest⟩
    · cases x with
      | nil =>
        obtain ⟨rfl, rfl⟩ := List.cons.inj hx
        exact ⟨w, rest, rfl, by simp, rfl⟩
      | cons y x =>
        obtain ⟨rfl, hrest⟩ := List.cons.inj hx
        obtain ⟨a', b', rfl, rfl, rfl⟩ := ih hrest
        exact ⟨w ++ e :: a', b', by simp, slashed_append he w a', rfl⟩
    · cases x with
      | nil =>
        obtain ⟨rfl, rfl⟩ := List.cons.inj hrest
        exact ⟨w, rest, rfl, by simpa using hx, rfl⟩
      | cons y x =>
        -- the joint would stand in a row without joints
        obtain ⟨rfl, -⟩ := List.cons.inj hrest
        rw [isJoint_of_mem_slashed hw (by simp [hx])] at hd
        cases hd

/-- A joint in front stays in front. -/
theorem head?_slashed (hd : isJoint d = true) :
    (slashed cs).head? = some d ↔ cs.head? = some d := by
  constructor
  · intro h
    rcases (slashing_slashed cs).head?_eq with heq | heq
    · rwa [← heq]
    · exact absurd (Option.some.inj (h.symm.trans heq)) (ne_backslash_of_isJoint hd)
  · intro h
    obtain ⟨rest, rfl⟩ := List.head?_eq_some_iff.mp h
    rw [slashed_cons hd, List.head?_cons]

/-- The last character stays the same. -/
theorem getLast?_slashed (cs : List Char) : (slashed cs).getLast? = cs.getLast? :=
  (slashing_slashed cs).getLast?_eq

end Joints

/-! ### Splitting and groups -/

/-- Names end at opening brackets. -/
theorem isJoint_of_isOpener {c : Char} (h : isOpener c = true) : isJoint c = true := by
  simp only [isOpener, Bool.or_eq_true, beq_iff_eq] at h
  rcases h with ((rfl | rfl) | rfl) | rfl <;> decide

/-- Names end at closing brackets. -/
theorem isJoint_of_isCloser {c : Char} (h : isCloser c = true) : isJoint c = true := by
  simp only [isCloser, Bool.or_eq_true, beq_iff_eq] at h
  rcases h with ((rfl | rfl) | rfl) | rfl <;> decide

/-- A row without joints has no brackets. -/
theorem nested_row {w : List Char} (hw : ∀ c ∈ w, isJoint c = false) :
    Nested (fun c => !isJoint c) w := by
  have habsent : ∀ c ∈ w, isJoint c ≠ true := fun c hc heq => by
    rw [hw c hc] at heq
    cases heq
  exact .of_forall fun c hc =>
    ⟨Bool.eq_false_iff.mpr fun ho => habsent c hc (isJoint_of_isOpener ho),
      Bool.eq_false_iff.mpr fun hcl => habsent c hc (isJoint_of_isCloser hcl), by simp [hw c hc]⟩

/-- The pieces of a slashed text are the slashed pieces of the text. -/
theorem pieces_slashed {sep : Char} (hsep : isJoint sep = true) (hcloser : isCloser sep = false)
    (depth : Nat) (cs : List Char) :
    pieces sep depth (slashed cs) = (pieces sep depth cs).map slashed := by
  have hrow {w : List Char} (hw : ∀ c ∈ w, isJoint c = false) (depth : Nat) (rest : List Char) :
      pieces sep depth (w ++ rest) = (pieces sep depth rest).modifyHead (w ++ ·) :=
    pieces_append hcloser (nested_row hw) (fun _ => by simp [hsep]) rest
  induction cs using joint_induction generalizing depth with
  | row w hw =>
    have hslashed := hrow (fun c hc => isJoint_of_mem_slashed hw hc) depth []
    have hplain := hrow hw depth []
    rw [List.append_nil] at hslashed hplain
    rw [hslashed, hplain]
    simp [pieces]
  | joint w d rest hw hd ih =>
    rw [slashed_append hd, hrow hw, hrow (fun c hc => isJoint_of_mem_slashed hw hc)]
    by_cases hcut : d = sep ∧ depthAfter depth d = 0
    · obtain ⟨rfl, hzero⟩ := hcut
      simp [pieces, hzero, ih]
    · have hno : d ≠ sep ∨ depthAfter depth d ≠ 0 := by
        rwa [← not_and_or]
      rw [pieces_cons_of_no_cut hno, pieces_cons_of_no_cut hno, ih]
      cases pieces sep (depthAfter depth d) rest with
      | nil => rfl
      | cons p ps => simp [slashed_append hd]

/-- Characters that are no joints do not close a group. -/
theorem closesEarly_row {w : List Char} (hw : ∀ c ∈ w, isJoint c = false) (depth : Nat)
    (rest : List Char) :
    isWrapped.closesEarly depth (w ++ rest) = isWrapped.closesEarly depth rest := by
  induction w with
  | nil => rfl
  | cons c w ih =>
    obtain ⟨hc, hw⟩ := List.forall_mem_cons.mp hw
    have hparen : c ≠ '(' ∧ c ≠ ')' := by
      constructor <;> rintro rfl <;> exact absurd hc (by decide)
    rw [List.cons_append, closesEarly_cons hparen.1 hparen.2, ih hw]

/-- Backslashes do not change where a group is closed. -/
theorem closesEarly_slashed (depth : Nat) (cs : List Char) :
    isWrapped.closesEarly depth (slashed cs) = isWrapped.closesEarly depth cs := by
  induction cs using joint_induction generalizing depth with
  | row w hw =>
    have hslashed := closesEarly_row (fun c hc => isJoint_of_mem_slashed hw hc) depth []
    have hplain := closesEarly_row hw depth []
    rw [List.append_nil] at hslashed hplain
    rw [hslashed, hplain]
  | joint w d rest hw hd ih =>
    have hempty : (slashed rest).isEmpty = rest.isEmpty := by
      rw [Bool.eq_iff_iff, List.isEmpty_iff, List.isEmpty_iff, slashed_eq_nil]
    rw [slashed_append hd, closesEarly_row hw,
      closesEarly_row (fun c hc => isJoint_of_mem_slashed hw hc)]
    simp only [isWrapped.closesEarly, hempty, ih]

/-- So a type in parentheses stays one. -/
theorem isWrapped_slashed (cs : List Char) : isWrapped (slashed cs) = isWrapped cs := by
  have hhead : ((slashed cs).head? == some '(') = (cs.head? == some '(') := by
    rw [Bool.eq_iff_iff, beq_iff_eq, beq_iff_eq, head?_slashed (by decide)]
  rw [isWrapped, isWrapped, hhead, getLast?_slashed, closesEarly_slashed]

/-- A group is a text in parentheses. -/
theorem exists_of_isWrapped {cs : List Char} (h : isWrapped cs = true) :
    ∃ inner, cs = '(' :: (inner ++ [')']) := by
  simp only [isWrapped, Bool.and_eq_true, beq_iff_eq] at h
  obtain ⟨⟨hhead, hlast⟩, -⟩ := h
  obtain ⟨rest, rfl⟩ := List.head?_eq_some_iff.mp hhead
  cases rest with
  | nil => cases hlast
  | cons c rest =>
    rw [List.getLast?_cons_cons] at hlast
    obtain ⟨inner, hinner⟩ := List.getLast?_eq_some_iff.mp hlast
    exact ⟨inner, by rw [hinner]⟩

/-! ### Brackets behind a type -/

/-- A text ends with brackets exactly if it is something with brackets behind it. -/
theorem endsWithBrackets_iff {cs : List Char} :
    endsWithBrackets cs = true ↔ ∃ xs, cs = xs ++ ['[', ']'] := by
  constructor
  · intro h
    unfold endsWithBrackets at h
    split at h
    · next xs hxs =>
      refine ⟨xs.reverse, ?_⟩
      rw [← List.reverse_reverse cs, hxs]
      simp
    · cases h
  · rintro ⟨xs, rfl⟩
    simp [endsWithBrackets]

/-- Brackets behind a type stay behind it. -/
theorem slashed_brackets (xs : List Char) :
    slashed (xs ++ ['[', ']']) = slashed xs ++ ['[', ']'] := by
  rw [slashed_append (by decide), slashed_cons (by decide), slashed_nil]

/-- A type that ends with brackets goes on to do so. -/
theorem endsWithBrackets_slashed (cs : List Char) :
    endsWithBrackets (slashed cs) = endsWithBrackets cs := by
  rw [Bool.eq_iff_iff, endsWithBrackets_iff, endsWithBrackets_iff]
  constructor
  · rintro ⟨xs, hxs⟩
    obtain ⟨a, b, rfl, -, hb⟩ := exists_of_slashed (by decide) hxs
    have hclose : slashed b = [] ++ ']' :: [] := hb
    obtain ⟨a', b', rfl, ha', hb'⟩ := exists_of_slashed (by decide) hclose
    rw [slashed_eq_nil] at ha' hb'
    exact ⟨a, by rw [ha', hb']; rfl⟩
  · rintro ⟨xs, rfl⟩
    exact ⟨slashed xs, slashed_brackets xs⟩

/-! ### Words, shapes and names with arguments -/

/-- A shape is a word for arrays with a brace behind it. -/
theorem isShape_lowered_iff {cs : List Char} : isShape (lowered cs) = true ↔
    ∃ w rest, isArrayWord (lowered w) = true ∧ cs = w ++ '\x7b' :: rest := by
  -- a text in lower case that begins with the word and a brace is one of a text that does so
  have hsplit (word rest : List Char) (h : word ++ '\x7b' :: rest = (lowered cs).toList) :
      ∃ w ds, lowered w = String.ofList word ∧ cs = w ++ '\x7b' :: ds := by
    rw [toList_lowered] at h
    obtain ⟨w, tail, rfl, hw, htail⟩ := List.map_eq_append_iff.mp h.symm
    obtain ⟨c, ds, rfl, hc, -⟩ := List.map_eq_cons_iff.mp htail
    refine ⟨w, ds, ?_, by rw [eq_brace_of_toLower hc]⟩
    rw [← hw, ← toList_lowered, String.ofList_toList]
  constructor
  · intro h
    simp only [isShape, Bool.or_eq_true, List.isPrefixOf_iff_prefix] at h
    rcases h with ⟨rest, hrest⟩ | ⟨rest, hrest⟩
    · obtain ⟨w, ds, hw, hcs⟩ := hsplit "array".toList rest hrest
      exact ⟨w, ds, by rw [hw]; decide, hcs⟩
    · obtain ⟨w, ds, hw, hcs⟩ := hsplit "list".toList rest hrest
      exact ⟨w, ds, by rw [hw]; decide, hcs⟩
  · rintro ⟨w, rest, hw, rfl⟩
    have hlower : (lowered (w ++ '\x7b' :: rest)).toList
        = (lowered w).toList ++ '\x7b' :: rest.map Char.toLower := by
      simp [show Char.toLower '\x7b' = '\x7b' by decide]
    simp only [isArrayWord, Bool.or_eq_true, beq_iff_eq] at hw
    simp only [isShape, Bool.or_eq_true, List.isPrefixOf_iff_prefix, hlower]
    rcases hw with hw | hw
    · exact Or.inl ⟨rest.map Char.toLower, by rw [hw]; rfl⟩
    · exact Or.inr ⟨rest.map Char.toLower, by rw [hw]; rfl⟩

/-- Words of the grammar get no backslash. -/
theorem slashed_of_isReserved {cs : List Char} (h : isReserved (String.ofList cs) = true) :
    slashed cs = cs :=
  qualifyAfter_of_isReserved _ h

/-- The words for arrays are words of the grammar. -/
theorem isReserved_of_isArrayWord {w : List Char} (h : isArrayWord (lowered w) = true) :
    isReserved (String.ofList w) = true := by
  rw [isReserved_ofList, h]
  simp

/-- A text whose slashed form is a word of the grammar is that word. -/
theorem slashed_eq_of_isReserved {cs : List Char}
    (h : isReserved (String.ofList (slashed cs)) = true) : slashed cs = cs :=
  slashed_eq_self (not_mem_backslash_of_isReserved h)

/-- The shape of an array is still one. -/
theorem isShape_slashed (cs : List Char) :
    isShape (lowered (slashed cs)) = isShape (lowered cs) := by
  rw [Bool.eq_iff_iff, isShape_lowered_iff, isShape_lowered_iff]
  constructor
  · rintro ⟨w, rest, hw, hcs⟩
    obtain ⟨w', rest', rfl, rfl, -⟩ := exists_of_slashed (by decide) hcs
    have hself := slashed_eq_of_isReserved (isReserved_of_isArrayWord hw)
    exact ⟨w', rest', hself ▸ hw, rfl⟩
  · rintro ⟨w, rest, hw, rfl⟩
    refine ⟨w, slashed rest, hw, ?_⟩
    rw [slashed_append (by decide), slashed_of_isReserved (isReserved_of_isArrayWord hw)]

/-- A word stands for the same type as before. -/
theorem wordType?_slashed (cs : List Char) : wordType? (slashed cs) = wordType? cs := by
  by_cases hres : isReserved (String.ofList cs) = true
  · rw [slashed_of_isReserved hres]
  by_cases hres' : isReserved (String.ofList (slashed cs)) = true
  · rw [slashed_eq_of_isReserved hres']
  rw [wordType?_eq_shape (by simpa using hres'), wordType?_eq_shape (by simpa using hres),
    isShape_slashed]

/-! ### Blanks -/

/-- Is every blank of the text one of ASCII? Other blanks count as characters of names. -/
def AsciiBlanks (cs : List Char) : Prop :=
  ∀ c ∈ cs, isBlank c = true → c.toNat < 0x80

instance (cs : List Char) : Decidable (AsciiBlanks cs) :=
  decidable_of_iff (cs.all (fun c => !isBlank c || decide (c.toNat < 0x80)) = true) <| by
    rw [List.all_eq_true]
    refine forall₂_congr fun c _ => ?_
    cases isBlank c <;> simp

theorem AsciiBlanks.mono {cs ds : List Char} (h : AsciiBlanks cs) (hds : ∀ c ∈ ds, c ∈ cs) :
    AsciiBlanks ds :=
  fun c hc => h c (hds c hc)

private theorem isJoint_ascii : ∀ n < 0x80, isBlank (Char.ofNat n) = true →
    isJoint (Char.ofNat n) = true := by
  decide +kernel

/-- A plain blank is a joint. -/
theorem AsciiBlanks.isJoint {cs : List Char} (h : AsciiBlanks cs) {c : Char} (hc : c ∈ cs)
    (hblank : isBlank c = true) : isJoint c = true := by
  have hjoint := isJoint_ascii c.toNat (h c hc hblank)
  rw [Char.ofNat_toNat] at hjoint
  exact hjoint hblank

/-- Joints in front of a text and behind it stay. -/
theorem slashed_pad {a b : List Char} (ha : ∀ c ∈ a, isJoint c = true)
    (hb : ∀ c ∈ b, isJoint c = true) (cs : List Char) :
    slashed (a ++ (cs ++ b)) = a ++ (slashed cs ++ b) := by
  have hfront : ∀ xs rest : List Char, (∀ c ∈ xs, isJoint c = true) →
      slashed (xs ++ rest) = xs ++ slashed rest := fun xs rest hxs => by
    induction xs with
    | nil => rfl
    | cons x xs ih =>
      obtain ⟨hx, hxs⟩ := List.forall_mem_cons.mp hxs
      rw [List.cons_append, slashed_cons hx, ih hxs, List.cons_append]
  rw [hfront a (cs ++ b) ha]
  cases b with
  | nil => rw [List.append_nil, List.append_nil]
  | cons d b =>
    obtain ⟨hd, hb⟩ := List.forall_mem_cons.mp hb
    have hrest := hfront b [] hb
    rw [slashed_nil, List.append_nil] at hrest
    rw [slashed_append hd, hrest]

/-- Trimming and adding backslashes do not disturb each other where all blanks are plain. -/
theorem trim_slashed {cs : List Char} (h : AsciiBlanks cs) :
    trim (slashed cs) = slashed (trim cs) := by
  obtain ⟨a, b, ha, hb, hcs⟩ := Text.exists_eq_pad_trim cs
  have hjoints : (∀ c ∈ a, isJoint c = true) ∧ ∀ c ∈ b, isJoint c = true := by
    refine ⟨fun c hc => h.isJoint ?_ (ha c hc), fun c hc => h.isJoint ?_ (hb c hc)⟩
    · rw [hcs]
      exact List.mem_append_left _ hc
    · rw [hcs]
      exact List.mem_append_right _ (List.mem_append_right _ hc)
  have hself : trim (slashed (trim cs)) = slashed (trim cs) := by
    refine Text.trim_eq_self (fun c hc => ?_) fun c hc => ?_
    · rcases (slashing_slashed (trim cs)).head?_eq with heq | heq
      · rw [heq, Text.head?_trim] at hc
        simpa using List.find?_some hc
      · rw [heq] at hc
        obtain rfl := Option.mem_some.mp hc
        decide
    · rw [getLast?_slashed] at hc
      exact Text.getLast?_trimRight_not_blank (trimLeft cs) c hc
  conv_lhs => rw [hcs, slashed_pad hjoints.1 hjoints.2, Text.trim_pad ha hb, hself]

/-- The pieces of a text are made of its characters. -/
theorem mem_of_mem_pieces {sep : Char} {depth : Nat} {cs piece : List Char}
    (h : piece ∈ pieces sep depth cs) : ∀ c ∈ piece, c ∈ cs := by
  induction cs generalizing depth piece with
  | nil =>
    rw [pieces, List.mem_singleton] at h
    simp [h]
  | cons c cs ih =>
    have hlater : ∀ {p}, p ∈ pieces sep (depthAfter depth c) cs → ∀ d ∈ p, d ∈ c :: cs :=
      fun hp d hd => List.mem_cons_of_mem c (ih hp d hd)
    simp only [pieces] at h
    split at h
    · rcases List.mem_cons.mp h with rfl | h
      · simp
      · exact hlater h
    · split at h
      · rw [List.mem_singleton.mp h]
        simp
      · next p ps hps =>
        rcases List.mem_cons.mp h with rfl | h
        · exact List.forall_mem_cons.mpr ⟨List.mem_cons_self, hlater (by rw [hps]; simp)⟩
        · exact hlater (by rw [hps]; exact List.mem_cons_of_mem p h)

/-- The parts of a slashed text are the slashed parts of the text. -/
theorem splitOutside_slashed {sep : Char} (hsep : isJoint sep = true)
    (hcloser : isCloser sep = false) {cs : List Char} (h : AsciiBlanks cs) :
    splitOutside sep (slashed cs) = (splitOutside sep cs).map slashed := by
  rw [splitOutside, splitOutside, pieces_slashed hsep hcloser, List.map_map, List.map_map]
  refine List.map_congr_left fun piece hpiece => ?_
  exact trim_slashed (h.mono (mem_of_mem_pieces hpiece))

theorem mem_of_mem_trim {c : Char} {cs : List Char} (h : c ∈ trim cs) : c ∈ cs := by
  obtain ⟨a, b, -, -, hcs⟩ := Text.exists_eq_pad_trim cs
  rw [hcs]
  exact List.mem_append_right _ (List.mem_append_left _ h)

/-- The parts of a text with plain blanks have plain blanks only. -/
theorem AsciiBlanks.of_mem_splitOutside {sep : Char} {cs part : List Char} (h : AsciiBlanks cs)
    (hpart : part ∈ splitOutside sep cs) : AsciiBlanks part := by
  obtain ⟨piece, hpiece, rfl⟩ := List.mem_map.mp hpart
  exact h.mono fun c hc => mem_of_mem_pieces hpiece c (mem_of_mem_trim hc)

/-! ### Names with arguments -/

/-- A name gets one backslash in front or stays as it is. -/
theorem slashed_nameChars {name : List Char} (h : ∀ c ∈ name, isNameChar c = true) :
    slashed name = name ∨ slashed name = '\\' :: name := by
  rw [slashed, qualifyAfter_nameChars _ h]
  split
  · exact qualifyName_global name
  · exact Or.inl rfl

/-- Blanks at the end of a slashed text come from the text. -/
theorem exists_of_slashed_blank {cs name b : List Char} (h : AsciiBlanks cs) (hb : Blank b)
    (hcs : slashed cs = name ++ b) :
    ∃ name' b', cs = name' ++ b' ∧ Blank b' ∧ slashed name' = name := by
  cases b with
  | nil => exact ⟨cs, [], (List.append_nil cs).symm, .nil, by rw [hcs, List.append_nil]⟩
  | cons d b =>
    have hd : isBlank d = true := hb d List.mem_cons_self
    have hmem : d ∈ cs := by
      refine mem_of_mem_slashed (by rw [hcs]; simp) ?_
      rintro rfl
      exact absurd hd (by decide)
    obtain ⟨name', b', rfl, hname', rfl⟩ := exists_of_slashed (h.isJoint hmem hd) hcs
    refine ⟨name', d :: b', rfl, fun c hc => hb c ?_, hname'⟩
    rcases List.mem_cons.mp hc with rfl | hc
    · exact List.mem_cons_self
    · exact List.mem_cons_of_mem d ((slashing_slashed b').sublist.subset hc)

/-- A name with arguments is one in the slashed form, too, with the name and the
arguments slashed. -/
theorem genericParts?_slashed {cs : List Char} (h : AsciiBlanks cs) :
    genericParts? (slashed cs) = (genericParts? cs).map fun p => (slashed p.1, slashed p.2) := by
  cases hcs : genericParts? cs with
  | some p =>
    obtain ⟨name, args⟩ := p
    obtain ⟨b, hb, hne, hname, rfl⟩ := genericParts?_eq_some.mp hcs
    have hjoints : ∀ c ∈ b, isJoint c = true := fun c hc =>
      h.isJoint (List.mem_append_right _ (List.mem_append_left _ hc)) (hb c hc)
    have hnames : ∀ c ∈ slashed name, isNameChar c = true := by
      rcases slashed_nameChars hname with heq | heq
      · rwa [heq]
      · rw [heq]
        exact List.forall_mem_cons.mpr ⟨by decide, hname⟩
    refine genericParts?_eq_some.mpr ⟨b, hb, fun heq => hne (slashed_eq_nil.mp heq), hnames, ?_⟩
    have hargs : slashed (args ++ ['>']) = slashed args ++ ['>'] := by
      rw [slashed_append (by decide), slashed_nil]
    rw [← List.append_assoc, slashed_append (by decide), hargs, ← List.append_assoc]
    exact congrArg (· ++ _) (slashed_pad (a := []) (by simp) hjoints name)
  | none =>
    -- a name with arguments in the slashed form would come from one in the text
    refine Option.eq_none_iff_forall_ne_some.mpr fun ⟨name, args⟩ hsome => ?_
    obtain ⟨b, hb, hne, hname, hslashed⟩ := genericParts?_eq_some.mp hsome
    rw [← List.append_assoc] at hslashed
    obtain ⟨front, back, rfl, hfront, hback⟩ := exists_of_slashed (by decide) hslashed
    obtain ⟨args', e, rfl, rfl, he⟩ := exists_of_slashed (by decide) hback
    obtain rfl := slashed_eq_nil.mp he
    obtain ⟨name', b', rfl, hb', rfl⟩ :=
      exists_of_slashed_blank (h.mono fun c hc => List.mem_append_left _ hc) hb hfront
    have hname' : ∀ c ∈ name', isNameChar c = true := fun c hc =>
      hname c ((slashing_slashed name').sublist.subset hc)
    have hfound : genericParts? ((name' ++ b') ++ '<' :: (args' ++ ['>'])) = some (name', args') :=
      genericParts?_eq_some.mpr
        ⟨b', hb', fun heq => hne (by rw [heq, slashed_nil]), hname', List.append_assoc _ _ _⟩
    rw [hcs] at hfound
    cases hfound

end TypeFacts.TypeText
