import TypeFacts.Proofs.Text.Case
import TypeFacts.Proofs.TypeText.Names

/-!
# Texts that are misread

Words are looked up before backslashes are taken off, and a name in front of arguments is compared
with the words for arrays only. Two kinds of texts are misread for this reason.

* Backslashes alone describe no type, but with arguments behind them they are a name with arguments,
  whose name is empty. The reading fails for the texts in which such a part is reached, and for no
  others (`parse_ok_iff`).
* A word for a scalar or an array behind a backslash, and a word for a scalar in front of arguments,
  are taken for the name of a class. Parts of these two kinds are the only source of a class named
  like a scalar or an array (`mem_names_iff_disguised`).
-/

namespace TypeFacts.TypeText

open Text (Blank isBlank trim)

/-! ### Names that are empty -/

/-- Backslashes alone with arguments behind them. -/
def Nameless (cs : List Char) : Prop :=
  ∃ slashes, slashes ≠ [] ∧ (∀ c ∈ slashes, c = '\\') ∧ HasArguments slashes cs

theorem isNameChar_of_slashes {slashes : List Char} (h : ∀ c ∈ slashes, c = '\\') :
    ∀ c ∈ slashes, isNameChar c = true := fun c hc => by
  rw [h c hc]
  decide

theorem name?_other_ne_empty (cs : List Char) : (Form.other cs).name? ≠ some "" := by
  intro h
  simp only [Form.name?] at h
  split_ifs at h with hkey hnil
  · rw [Option.some.inj h] at hkey
    exact absurd hkey (by decide)
  · exact hnil (by simpa [String.ext_iff] using Option.some.inj h)

/-- Only backslashes with arguments give an empty name. -/
theorem name?_eq_empty_iff {a : List Char} (ha : trim a = a) :
    (form a).name? = some "" ↔ Nameless a := by
  constructor
  · intro h
    cases hform : form a with
    | blank | group _ | intersection | marked _ | word _ | elements _ => rw [hform] at h; cases h
    | other cs => exact absurd (hform ▸ h) (name?_other_ne_empty cs)
    | generic name args =>
      obtain ⟨hne, -, hargs⟩ := (form_eq_generic_iff ha).mp ⟨args, hform⟩
      rw [hform, Form.name?] at h
      split_ifs at h
      have hnil : Text.dropBackslashes name = [] := by
        simpa [String.ext_iff] using Option.some.inj h
      obtain ⟨slashes, hslashes, heq⟩ := exists_eq_slashes_append name
      rw [hnil, List.append_nil] at heq
      exact ⟨name, hne, heq ▸ hslashes, hargs⟩
  · rintro ⟨slashes, hne, hslashes, hargs⟩
    obtain ⟨args, hform⟩ :=
      (form_eq_generic_iff ha).mpr ⟨hne, isNameChar_of_slashes hslashes, hargs⟩
    have hdrop : Text.dropBackslashes slashes = [] := by
      have hnil := dropBackslashes_slashes_append hslashes []
      rwa [List.append_nil] at hnil
    have harray : isArrayName slashes = false := by
      rw [isArrayName, hdrop]
      decide
    rw [hform, Form.name?, harray, hdrop]
    rfl

/-- The bracket of the arguments follows the last backslash. -/
theorem Nameless.isInfix {a : List Char} (h : Nameless a) :
    ∃ b, Blank b ∧ '\\' :: (b ++ ['<']) <:+: a := by
  obtain ⟨slashes, hne, hslashes, -, b, args, hb, rfl⟩ := h
  obtain ⟨init, last, rfl⟩ : ∃ init last, slashes = init ++ [last] :=
    ⟨_, _, (List.dropLast_append_getLast hne).symm⟩
  rw [hslashes last (by simp)]
  exact ⟨b, hb, init, args ++ ['>'], by simp⟩

/-- The reading succeeds exactly if no part that is reached is made of backslashes and arguments. -/
theorem parse_succeeds_iff {text : String} : (∃ found, parse text = .ok found) ↔
    ∀ a, Reached text.toList a → ¬ Nameless a := by
  simp only [parse]
  rw [succeeds_iff]
  refine forall₂_congr fun a ha => ?_
  rw [Ne, name?_eq_empty_iff ha.trim_eq]

/-- A text is read, and what is found is well formed, exactly if no part of it that is reached
consists of backslashes with arguments behind them; otherwise the reading fails for an empty name.
So every text without a bracket behind a backslash is read. -/
theorem parse_ok_iff (text : String) :
    ((∃ found, parse text = .ok found ∧ ∀ t ∈ found, t.WellFormed) ↔
        ∀ a, Reached text.toList a → ¬ Nameless a) ∧
      (parse text = .error .emptyName ↔ ∃ a, Reached text.toList a ∧ Nameless a) ∧
      ((∀ b, Blank b → ¬ '\\' :: (b ++ ['<']) <:+: text.toList) →
        ∃ found, parse text = .ok found) := by
  refine ⟨?_, ?_, fun hnone => parse_succeeds_iff.mpr fun a ha hless => ?_⟩
  · rw [← parse_succeeds_iff]
    refine exists_congr fun found => and_iff_left_of_imp ?_
    rintro hparse t rfl
    exact (wellFormed_of_parse hparse).1
  · rw [← not_iff_not, not_exists]
    simp only [not_and]
    rw [← parse_succeeds_iff]
    cases parse text with
    | error e => cases e; simp
    | ok found => simp
  · obtain ⟨b, hb, hinside⟩ := hless.isInfix
    exact hnone b hb (hinside.trans ha.isInfix)

/-- Backslashes alone are no name, but with arguments they are read as one. -/
theorem slashed_arguments_fail :
    parse "\\" = .ok none ∧ parse "\\<int>" = .error .emptyName := by
  have hslash : ∀ c ∈ "\\".toList, isNameChar c = true := List.all_eq_true.mp (by decide)
  have hargs : Nested isNameChar "int".toList :=
    nested_of_nameChars (List.all_eq_true.mp (by decide))
  refine ⟨?_, ?_⟩
  · rw [parse, expression_of_nested (nested_of_nameChars hslash) (by decide),
      alternative_of_nameChars (by decide) hslash]
    rfl
  · have hread := alternative_generic (by decide) hslash hargs
    have hnested : Nested isNameChar "\\<int>".toList :=
      (nested_of_nameChars hslash).append (.bracketed rfl hargs)
    rw [parse, expression_of_nested hnested (by decide)]
    exact hread

/-! ### Words that are taken for names -/

/-- Is the word, in lower case, one for a scalar or an array? -/
def isDataWord (word : String) : Bool :=
  (scalarAlias? word).isSome || isArrayWord word

/-- The words for scalars and arrays are plain words. -/
theorem isPlainLetter_of_isDataWord {word : String} (h : isDataWord word = true) :
    ∀ c ∈ word.toList, Text.IsPlainLetter c := by
  have hall : (word.toList.all fun c => decide (Text.IsPlainLetter c)) = true := by
    simp only [isDataWord, isArrayWord, Bool.or_eq_true, beq_iff_eq] at h
    rcases h with h | rfl | rfl
    · unfold scalarAlias? at h
      split at h <;> first | decide | cases h
    · decide
    · decide
  exact fun c hc => of_decide_eq_true (List.all_eq_true.mp hall c hc)

/-- A name is such a word in any letter case exactly if it is one in the ASCII letters. -/
theorem isDataWord_lower (s : String) :
    isDataWord (Text.lower s) = isDataWord (Text.asciiLower s) := by
  rw [Bool.eq_iff_iff]
  constructor
  · intro h
    rwa [(Text.lower_eq_iff (isPlainLetter_of_isDataWord h)).mp rfl]
  · intro h
    rwa [(Text.lower_eq_iff (isPlainLetter_of_isDataWord h)).mpr rfl]

/-- How a word for a scalar or an array is written where it is taken for a name: behind backslashes,
or, if it is a word for a scalar, in front of arguments. -/
inductive Disguised (word : List Char) : List Char → Prop
  | slashed {slashes : List Char} : slashes ≠ [] → (∀ c ∈ slashes, c = '\\') →
      Disguised word (slashes ++ word)
  | applied {slashes cs : List Char} : (∀ c ∈ slashes, c = '\\') →
      isArrayWord (lowered word) = false → HasArguments (slashes ++ word) cs → Disguised word cs

theorem isReserved_of_isDataWord {word : List Char} (h : isDataWord (lowered word) = true) :
    isReserved (String.ofList word) = true := by
  rw [isReserved_ofList]
  rw [isDataWord] at h
  rw [h]
  rfl

theorem wordType?_of_isDataWord {word : List Char} (h : isDataWord (lowered word) = true) :
    wordType? word ≠ none := by
  rw [wordType?_eq]
  rw [isDataWord] at h
  cases hscalar : scalarAlias? (lowered word) with
  | some k => simp
  | none =>
    have harray : isArrayWord (lowered word) = true := by simpa [hscalar] using h
    simp only [harray, Bool.true_or, if_true]
    split_ifs <;> exact Option.some_ne_none _

theorem not_isDataWord_of_isKeyword {word : String} (h : isKeyword word = true) :
    isDataWord (Text.asciiLower word) = false := by
  have hkeywords : ∀ w ∈ keywordTypes, isDataWord (Text.asciiLower w) = false := by decide
  exact hkeywords word (List.contains_iff_mem.mp h)

/-- With a backslash in front no word is seen. -/
theorem not_isReserved_of_slashes {slashes : List Char} (hne : slashes ≠ [])
    (h : ∀ c ∈ slashes, c = '\\') (cs : List Char) :
    isReserved (String.ofList (slashes ++ cs)) = false := Bool.eq_false_iff.mpr fun hres => by
  obtain ⟨c, tail, rfl⟩ := List.exists_cons_of_ne_nil hne
  refine not_mem_backslash_of_isReserved hres ?_
  rw [← h c List.mem_cons_self]
  exact List.mem_append_left cs List.mem_cons_self

theorem dropBackslashes_slashed_word {slashes word : List Char} (h : ∀ c ∈ slashes, c = '\\')
    (hword : isDataWord (lowered word) = true) :
    Text.dropBackslashes (slashes ++ word) = word := by
  rw [dropBackslashes_slashes_append h]
  refine Text.dropBackslashes_eq_self fun hhead => ?_
  exact not_mem_backslash_of_isReserved (isReserved_of_isDataWord hword) (List.mem_of_head? hhead)

/-- An alternative gives a word for a scalar or an array as a name exactly if it is the word
in disguise. -/
theorem name?_eq_word_iff {a word : List Char} (ha : trim a = a)
    (hword : isDataWord (lowered word) = true) :
    (form a).name? = some (String.ofList word) ↔ Disguised word a := by
  obtain ⟨hwordNe, hwordChars⟩ := nameChars_of_isReserved (isReserved_of_isDataWord hword)
  have hnameChars : ∀ {slashes : List Char}, (∀ c ∈ slashes, c = '\\') →
      slashes ++ word ≠ [] ∧ ∀ c ∈ slashes ++ word, isNameChar c = true := fun hslashes =>
    ⟨fun heq => hwordNe (List.append_eq_nil_iff.mp heq).2, fun c hc =>
      (List.mem_append.mp hc).elim (isNameChar_of_slashes hslashes c) (hwordChars c)⟩
  constructor
  · intro h
    cases hform : form a with
    | blank | group _ | intersection | marked _ | word _ | elements _ => rw [hform] at h; cases h
    | generic name args =>
      obtain ⟨hne, -, hargs⟩ := (form_eq_generic_iff ha).mp ⟨args, hform⟩
      rw [hform, Form.name?] at h
      split_ifs at h with harray
      have hdrop : Text.dropBackslashes name = word := by
        simpa [String.ext_iff] using Option.some.inj h
      obtain ⟨slashes, hslashes, heq⟩ := exists_eq_slashes_append name
      rw [hdrop] at heq
      rw [isArrayName, hdrop] at harray
      exact .applied hslashes (Bool.eq_false_iff.mpr harray) (heq ▸ hargs)
    | other cs =>
      have hspelled := spelled_form a
      rw [hform, ha] at hspelled
      cases hspelled with
      | other hnoWord _ =>
        rw [hform, Form.name?] at h
        split_ifs at h with hkey
        · rw [Option.some.inj h] at hkey
          rw [lowered, not_isDataWord_of_isKeyword hkey] at hword
          cases hword
        · have hdrop : Text.dropBackslashes a = word := by
            simpa [String.ext_iff] using Option.some.inj h
          obtain ⟨slashes, hslashes, heq⟩ := exists_eq_slashes_append a
          rw [hdrop] at heq
          -- without a backslash in front the word would have been seen
          have hne : slashes ≠ [] := by
            rintro rfl
            rw [heq, List.nil_append] at hnoWord
            exact wordType?_of_isDataWord hword hnoWord
          rw [heq]
          exact .slashed hne hslashes
  · intro h
    cases h with
    | @slashed slashes hne hslashes =>
      have hdrop := dropBackslashes_slashed_word hslashes hword
      have hclass : IsClassName (slashes ++ word) :=
        ⟨(hnameChars hslashes).2, by rwa [hdrop], not_isReserved_of_slashes hne hslashes word⟩
      rw [form_of_isClassName hclass, Form.name?, hclass.not_isKeyword, hdrop]
      simp [hwordNe]
    | @applied slashes cs hslashes harray hargs =>
      obtain ⟨hcs, hall⟩ := hnameChars hslashes
      obtain ⟨args, hform⟩ := (form_eq_generic_iff ha).mpr ⟨hcs, hall, hargs⟩
      have harray' : isArrayName (slashes ++ word) = false := by
        rw [isArrayName, dropBackslashes_slashed_word hslashes hword]
        exact harray
      rw [hform, Form.name?, harray', dropBackslashes_slashed_word hslashes hword]
      rfl

/-- In a type that is read, a class is named like a scalar or an array, in any letter case, exactly
if a part of the text that is reached is this word in disguise. -/
theorem mem_names_iff_disguised {text : String} {t : Ty} (h : parse text = .ok (some t))
    {word : String} (hword : isDataWord (Text.lower word) = true) :
    word ∈ t.names ↔ ∃ a, Reached text.toList a ∧ Disguised word.toList a := by
  rw [isDataWord_lower] at hword
  have hlowered : isDataWord (lowered word.toList) = true := by
    rwa [lowered, String.ofList_toList]
  have hne : ∀ w, isDataWord (Text.asciiLower w) = false → word ≠ w := by
    rintro w hw rfl
    rw [hword] at hw
    cases hw
  -- the names that the reader gives by itself are no such words
  rw [mem_names_iff h (hne "null" (by decide)) (hne "mixed" (by decide))]
  refine exists_congr fun a => and_congr_right fun ha => ?_
  rw [← name?_eq_word_iff ha.trim_eq hlowered, String.ofList_toList]

theorem mem_names_iff_disguised_list :
    parse "list<\\INT>" = .ok (some (.array (.named "INT" false) false)) ∧
    isDataWord (Text.lower "INT") = true ∧
    ("INT" ∈ (Ty.array (.named "INT" false) false).names ↔
      ∃ a, Reached "list<\\INT>".toList a ∧ Disguised "INT".toList a) := by
  have hclass : IsClassName "\\INT".toList := by decide
  have hdenotes : Denotes .expression "list<\\INT>".toList (.array (.named "INT" false) false) :=
    .single (.plain (.bare (@Denotes.array "list".toList _ _ (by decide)
      (.single (.plain (.bare (.className hclass)))))))
  have hword : isDataWord (Text.lower "INT") = true := by decide
  exact ⟨hdenotes.expression_eq, hword, mem_names_iff_disguised hdenotes.expression_eq hword⟩

/-- The word for integers behind a backslash or with a range is read as a name, and not as it is
read by itself. -/
theorem disguised_scalars : parse "int" = .ok (some (.scalar .int false)) ∧
    parse "\\int" = .ok (some (.named "int" false)) ∧
    parse "int<1,2>" = .ok (some (.named "int" false)) := by
  have hclass : IsClassName "\\int".toList := by decide
  have hint : Denotes .expression "int".toList (.scalar .int false) :=
    .single (.plain (.bare (.scalar (by decide))))
  have hslashed : Denotes .expression "\\int".toList (.named "int" false) :=
    .single (.plain (.bare (.className hclass)))
  have hchars : ∀ c ∈ "int".toList, isNameChar c = true := List.all_eq_true.mp (by decide)
  have hargs : Nested (fun c => isNameChar c || c == ',') ['1', ',', '2'] :=
    .char rfl rfl rfl (.char rfl rfl rfl (.char rfl rfl rfl .nil))
  have hrange : Nested isNameChar "int<1,2>".toList :=
    (nested_of_nameChars hchars).append (.bracketed rfl hargs)
  refine ⟨hint.expression_eq, hslashed.expression_eq, ?_⟩
  rw [parse, expression_of_nested hrange (by decide)]
  exact alternative_generic (by decide) hchars hargs

end TypeFacts.TypeText
