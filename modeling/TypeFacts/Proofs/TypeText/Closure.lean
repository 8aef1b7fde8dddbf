import TypeFacts.Proofs.Outcome
import TypeFacts.Proofs.Ty.Names
import TypeFacts.Proofs.TypeText.Grammar

/-!
# What the reader can give

The reader takes scalar kinds, `null` and names for the words of a text, and from these it makes
arrays, merges alternatives and sets flags. A property of types that holds of the words and is kept
by what the reader does with them holds of every type that is read, whatever the text
(`ReaderClosed.parse`). Here no grammar is asked for: brackets may be left open, and any text may
stand for a name.

Two properties of this kind: types that are read are well formed, and the names in them do not begin
with a backslash (`wellFormed_of_parse`).
-/

namespace TypeFacts.TypeText

open Text (trim)

/-- A name without a backslash in front. -/
def Unslashed (s : String) : Prop :=
  s.toList.head? ≠ some '\\'

instance : DecidablePred Unslashed :=
  fun s => inferInstanceAs (Decidable (s.toList.head? ≠ some '\\'))

/-- A property of types that holds of the words of the grammar and of names, and that is kept by
everything the reader makes of types. -/
structure ReaderClosed (P : Ty → Prop) : Prop where
  scalar (k : ScalarKind) : P (.scalar k false)
  null : P .null
  named {s : String} : s ≠ "" → Unslashed s → P (.named s false)
  nullable {t : Ty} : P t → P (t.withNullable true)
  array {v : Ty} : P v → P (.array v false)
  keyed {k v : Ty} : P k → P v → P (.keyed k v false)
  merge {ts : List Ty} : ts ≠ [] → (∀ t ∈ ts, P t) → P (.merge ts)

private theorem unslashed_keywordTypes : ∀ w ∈ keywordTypes, w ≠ "" ∧ Unslashed w := by
  decide

namespace ReaderClosed

variable {P : Ty → Prop} (h : ReaderClosed P)
include h

/-! ### Words and names -/

theorem mixed : P .mixed :=
  h.named (by decide) (by decide)

theorem anyArray : P .anyArray :=
  h.array h.mixed

theorem getD_mixed {o : Option Ty} (ho : ∀ t ∈ o, P t) : P (o.getD .mixed) := by
  cases o with
  | none => exact h.mixed
  | some t => exact ho t rfl

theorem arrayOf {key : Option Ty} {v : Ty} (hkey : ∀ k ∈ key, P k) (hv : P v) :
    P (.arrayOf key v false) := by
  cases key with
  | none => exact h.array hv
  | some k => exact h.keyed (hkey k rfl) hv

theorem wordType? {cs : List Char} {t : Ty} (ht : wordType? cs = some t) : P t := by
  rw [wordType?_eq] at ht
  split at ht
  · next k _ =>
    rw [← Option.some.inj ht]
    exact h.scalar k
  · split_ifs at ht
    · rw [← Option.some.inj ht]
      exact h.null
    · rw [← Option.some.inj ht]
      exact h.anyArray

theorem nameType {cs : List Char} (hne : Text.dropBackslashes cs ≠ []) : P (nameType cs) := by
  refine h.named (by simpa [String.ext_iff] using hne) fun hhead => ?_
  have hstop := List.head?_dropWhile_not (· == '\\') cs
  rw [String.toList_ofList, Text.dropBackslashes] at hhead
  rw [hhead] at hstop
  cases hstop

/-- A name is taken without the backslashes in front of it. -/
theorem ofName (name : List Char) :
    Yields (Ty.ofName (String.ofList (Text.dropBackslashes name)) false) P := by
  by_cases hnil : Text.dropBackslashes name = []
  · rw [hnil]
    exact yields_error _
  · rw [ofName_of_ne_nil hnil]
    exact yields_ok (h.nameType hnil)

theorem wordOrName (cs : List Char) : Yields (wordOrName cs) fun o => ∀ t ∈ o, P t := by
  by_cases hkey : isKeyword (lowered cs) = true
  · obtain ⟨hne, hslash⟩ := unslashed_keywordTypes _ (List.contains_iff_mem.mp hkey)
    have hname : Ty.ofName (lowered cs) false = .ok (.named (lowered cs) false) := by
      simp [Ty.ofName, hne]
    rw [TypeText.wordOrName, ← lowered, if_pos hkey, hname]
    exact yields_ok fun t ht => Option.some.inj ht ▸ h.named hne hslash
  · rw [wordOrName_of_not_isKeyword (Bool.eq_false_iff.mpr hkey)]
    refine yields_ok fun t ht => ?_
    split at ht
    · cases ht
    · next hne => exact Option.some.inj ht ▸ h.nameType hne

theorem mergeFound {found : List (Option Ty)} (hfound : ∀ o ∈ found, ∀ t ∈ o, P t) :
    ∀ t ∈ mergeFound found, P t := by
  intro t ht
  unfold TypeText.mergeFound at ht
  split at ht
  · cases ht
  · next ts hne =>
    rw [← Option.some.inj ht]
    refine h.merge (fun heq => hne heq) fun u hu => ?_
    obtain ⟨o, ho, hou⟩ := List.mem_filterMap.mp hu
    exact hfound o ho u hou

/-! ### The recursion of the reader -/

/-- What each function of the reader gives, where it gives a type, has the property. -/
theorem reads : (∀ cs, Yields (expression cs) fun o => ∀ t ∈ o, P t) ∧
    (∀ cs, Yields (alternatives cs) fun o => ∀ t ∈ o, P t) ∧
    (∀ cs, Yields (alternative cs) fun o => ∀ t ∈ o, P t) ∧
    (∀ args, Yields (arrayArguments args) P) ∧
    ∀ cs, Yields (optional cs) fun o => ∀ t ∈ o, P t := by
  have hnone : ∀ t ∈ (none : Option Ty), P t := fun t ht => by cases ht
  have hsome : ∀ t, P t → ∀ u ∈ some t, P u := fun t ht u hu => Option.some.inj hu ▸ ht
  -- the cases are those of the five functions, in the order in which they are defined
  refine expression.mutual_induct _ _ _ _ _ ?_ ?_ ?_ ?_ ?_ ?_ ?_ ?_ ?_ ?_ ?_ ?_ ?_ ?_ ?_ ?_ ?_ ?_ ?_
  · intro cs hblank
    rw [expression_of_blank hblank]
    exact yields_ok hnone
  · intro cs rest hmark ih
    rwa [expression_of_mark hmark]
  · intro cs c body hmark htrim ih
    rw [expression_of_head_ne (by simp [htrim]) (by simpa [htrim] using hmark)]
    rwa [← htrim, alternatives_trim] at ih
  · intro cs hmany ih
    rw [alternatives_eq, if_pos hmany]
    exact (Yields.mapM ih).map fun found hfound => h.mergeFound hfound
  · intro cs hone ih
    rwa [alternatives_eq, if_neg hone]
  · intro cs hblank
    rw [alternative_of_blank hblank]
    exact yields_ok hnone
  · intro cs c body htrim hwrap ih
    rwa [alternative_eq htrim, if_pos hwrap]
  · intro cs c body htrim hwrap hand
    rw [alternative_eq htrim, if_neg hwrap, if_pos hand]
    exact yields_ok (hsome _ h.mixed)
  · intro cs body htrim hwrap hand ih
    rwa [alternative_eq htrim, if_neg hwrap, if_neg hand, if_pos rfl]
  · intro cs c body htrim hwrap hand hmark t hword
    rw [alternative_eq htrim, if_neg hwrap, if_neg hand, if_neg hmark, hword]
    exact yields_ok (hsome t (h.wordType? hword))
  · intro cs c body htrim hwrap hand hmark hword name args hgeneric harray ih
    rw [alternative_eq htrim, if_neg hwrap, if_neg hand, if_neg hmark, hword, hgeneric]
    simp only [harray, if_true]
    exact ih.map fun t ht => hsome t ht
  · intro cs c body htrim hwrap hand hmark hword name args hgeneric harray
    rw [alternative_eq htrim, if_neg hwrap, if_neg hand, if_neg hmark, hword, hgeneric]
    simp only [harray]
    exact (h.ofName name).map fun t ht => hsome t ht
  · intro cs c body htrim hwrap hand hmark hword hgeneric hbrackets ih
    rw [alternative_eq htrim, if_neg hwrap, if_neg hand, if_neg hmark, hword, hgeneric]
    simp only [hbrackets, if_true]
    exact ih.map fun o ho => hsome _ (h.array (h.getD_mixed ho))
  · intro cs c body htrim hwrap hand hmark hword hgeneric hbrackets
    rw [alternative_eq htrim, if_neg hwrap, if_neg hand, if_neg hmark, hword, hgeneric]
    simp only [hbrackets]
    exact h.wordOrName _
  · intro args key value rest hsplit ihk ihv
    rw [arrayArguments_pair hsplit]
    exact ihk.bind fun k hk => ihv.bind fun v hv => yields_ok (h.arrayOf hk (h.getD_mixed hv))
  · intro args value hsplit ih
    rw [arrayArguments_single hsplit]
    exact ih.map fun v hv => h.array (h.getD_mixed hv)
  · intro args hsplit
    exact absurd (List.map_eq_nil_iff.mp hsplit) (pieces_ne_nil _ _ _)
  · intro cs hblank
    rw [optional_of_blank hblank]
    exact yields_ok hnone
  · intro cs c body htrim ih
    rw [← htrim, alternatives_trim] at ih
    rw [optional_eq (by simp [htrim])]
    exact ih.map fun o ho t ht => by
      obtain ⟨u, hu, rfl⟩ := Option.map_eq_some_iff.mp ht
      exact h.nullable (ho u hu)

/-- Every type that is read has the property. -/
theorem parse (text : String) : Yields (parse text) fun o => ∀ t ∈ o, P t :=
  h.reads.1 text.toList

end ReaderClosed

/-! ### Well-formed types -/

theorem readerClosed_wellFormed : ReaderClosed fun t => t.WellFormed ∧ t.AllNames Unslashed where
  scalar k := ⟨trivial, trivial⟩
  null := ⟨Ty.wellFormed_null, (by decide : Unslashed "null")⟩
  named hne hslash := ⟨hne, hslash⟩
  nullable h := ⟨Ty.wellFormed_withNullable.mpr h.1, Ty.allNames_withNullable.mpr h.2⟩
  array h := h
  keyed hk hv := ⟨⟨hk.1, hv.1⟩, hk.2, hv.2⟩
  merge hne h := ⟨Ty.merge_wellFormed fun t ht => (h t ht).1,
    Ty.allNames_merge hne (by decide) fun t ht => (h t ht).2⟩

/-- A type that is read is well formed, and no name in it begins with a backslash. -/
theorem wellFormed_of_parse {text : String} {t : Ty} (h : parse text = .ok (some t)) :
    t.WellFormed ∧ t.AllNames Unslashed :=
  readerClosed_wellFormed.parse text _ h t rfl

end TypeFacts.TypeText
