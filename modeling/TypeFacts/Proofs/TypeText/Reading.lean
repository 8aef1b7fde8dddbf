import TypeFacts.Proofs.TypeText.Nesting

/-!
# One step of the type reader

The functions that read a type text call each other on trimmed texts and parts of texts. Here stands
what one call does.

* Words are compared in lower case; a word of the grammar, in any letter case, consists of name
  characters (`nameChars_of_isReserved`), and a text with any other character is no word unless it
  is a shape (`wordType?_eq_none`).
* No function sees the blanks around its text (`alternative_congr`, `alternatives_congr`,
  `expression_congr`).
* A phrase of names and brackets is one alternative (`alternative_of_nested`): a row of name
  characters, a name with arguments, a group, or such a phrase with brackets behind it
  (`alternative_of_nameChars`, `alternative_generic`, `alternative_group`, `alternative_brackets`).
-/

namespace TypeFacts.TypeText

open Text (Blank isBlank trim trimLeft)

/-! ### Words -/

/-- The form of a text in which words are compared. -/
def lowered (cs : List Char) : String :=
  Text.asciiLower (String.ofList cs)

@[simp] theorem toList_lowered (cs : List Char) : (lowered cs).toList = cs.map Char.toLower := by
  simp [lowered, Text.asciiLower]

private theorem toLower_ascii : ∀ n < 128, ('A'.toNat ≤ n ∧ n ≤ 'Z'.toNat) →
    isNameChar (Char.ofNat n) = true ∧ isNameChar (Char.ofNat n).toLower = true ∧
      (Char.ofNat n).toLower ≠ '\x7b' := by
  decide +kernel

/-- A character that is no capital letter is in lower case already. -/
theorem toLower_eq_self {c : Char} (h : ¬ ('A'.toNat ≤ c.toNat ∧ c.toNat ≤ 'Z'.toNat)) :
    c.toLower = c := by
  unfold Char.toLower
  exact dif_neg h

@[simp] theorem isNameChar_toLower (c : Char) : isNameChar c.toLower = isNameChar c := by
  by_cases h : 'A'.toNat ≤ c.toNat ∧ c.toNat ≤ 'Z'.toNat
  · have hc := toLower_ascii c.toNat (Nat.lt_of_le_of_lt h.2 (by decide)) h
    rw [Char.ofNat_toNat] at hc
    rw [hc.1, hc.2.1]
  · rw [toLower_eq_self h]

/-- No other character becomes a brace in lower case. -/
theorem eq_brace_of_toLower {c : Char} (hc : c.toLower = '\x7b') : c = '\x7b' := by
  by_cases h : 'A'.toNat ≤ c.toNat ∧ c.toNat ≤ 'Z'.toNat
  · have hne := (toLower_ascii c.toNat (Nat.lt_of_le_of_lt h.2 (by decide)) h).2.2
    rw [Char.ofNat_toNat] at hne
    exact absurd hc hne
  · rwa [toLower_eq_self h] at hc

/-- The words of the grammar, in lower case. -/
private def reservedWords : List String :=
  ["int", "integer", "float", "double", "string", "bool", "boolean", "true", "false",
    "array", "list",
    "null"] ++ keywordTypes

private theorem nameChars_reservedWords : ∀ w ∈ reservedWords,
    w.toList ≠ [] ∧ w.toList.all isNameChar = true ∧ w.toList.contains '\\' = false := by
  decide +kernel

/-- A text is a word of the grammar if its lower case is a scalar, an array word, a keyword
or null. -/
theorem isReserved_ofList (cs : List Char) : isReserved (String.ofList cs) =
    ((scalarAlias? (lowered cs)).isSome || isArrayWord (lowered cs) || isKeyword (lowered cs) ||
      lowered cs == "null") := rfl

/-- What a word stands for is decided by its lower case alone. -/
theorem wordType?_eq (cs : List Char) : wordType? cs =
    match scalarAlias? (lowered cs) with
    | some kind => some (.scalar kind false)
    | none =>
      if lowered cs == "null" then some .null
      else if isArrayWord (lowered cs) || isShape (lowered cs) then some .anyArray
      else none := rfl

private theorem lowered_mem_reservedWords {cs : List Char}
    (h : isReserved (String.ofList cs) = true) : lowered cs ∈ reservedWords := by
  rw [isReserved_ofList] at h
  generalize lowered cs = w at h ⊢
  simp only [Bool.or_eq_true, isArrayWord, isKeyword, beq_iff_eq, List.contains_iff_mem] at h
  rcases h with ((h | h) | h) | h
  · unfold scalarAlias? at h
    split at h <;> simp [reservedWords] at h ⊢
  · rcases h with rfl | rfl <;> simp [reservedWords]
  · exact List.mem_append_right _ h
  · subst h
    simp [reservedWords]

/-- A word of the grammar, in any letter case, is not empty and has only name characters. -/
theorem nameChars_of_isReserved {cs : List Char} (h : isReserved (String.ofList cs) = true) :
    cs ≠ [] ∧ ∀ c ∈ cs, isNameChar c = true := by
  obtain ⟨hne, hall, -⟩ := nameChars_reservedWords _ (lowered_mem_reservedWords h)
  rw [toList_lowered] at hne hall
  refine ⟨fun heq => hne (by rw [heq]; rfl), fun c hc => ?_⟩
  rw [← isNameChar_toLower]
  exact List.all_eq_true.mp hall _ (List.mem_map_of_mem hc)

/-- No word of the grammar has a backslash in it. -/
theorem not_mem_backslash_of_isReserved {cs : List Char}
    (h : isReserved (String.ofList cs) = true) :
    '\\' ∉ cs := fun hmem => by
  obtain ⟨-, -, hslash⟩ := nameChars_reservedWords _ (lowered_mem_reservedWords h)
  have hlower : '\\' ∈ (lowered cs).toList := by
    rw [toList_lowered]
    exact List.mem_map.mpr ⟨'\\', hmem, by decide⟩
  rw [List.contains_iff_mem.mpr hlower] at hslash
  cases hslash

/-! ### Texts beyond names -/

/-- The first character of a text that belongs to no name. -/
def firstSymbol? (cs : List Char) : Option Char :=
  cs.find? fun c => !isNameChar c

/-- A text of name characters has no symbol. -/
theorem firstSymbol?_of_forall {cs : List Char} (h : ∀ c ∈ cs, isNameChar c = true) :
    firstSymbol? cs = none :=
  List.find?_eq_none.mpr fun c hc => by simp [h c hc]

@[simp] theorem firstSymbol?_append (cs ds : List Char) :
    firstSymbol? (cs ++ ds) = (firstSymbol? cs).or (firstSymbol? ds) :=
  List.find?_append

/-- A symbol in front is the first one. -/
theorem firstSymbol?_cons {c : Char} (h : isNameChar c = false) (cs : List Char) :
    firstSymbol? (c :: cs) = some c := by
  simp [firstSymbol?, h]

/-- A shape has a brace behind its word. -/
theorem firstSymbol?_of_isShape {cs : List Char} (h : isShape (lowered cs) = true) :
    firstSymbol? cs = some '\x7b' := by
  have hbrace : firstSymbol? (cs.map Char.toLower) = some '\x7b' := by
    simp only [isShape, Bool.or_eq_true, List.isPrefixOf_iff_prefix, toList_lowered] at h
    rcases h with ⟨rest, hrest⟩ | ⟨rest, hrest⟩
    all_goals rw [← hrest, firstSymbol?_append]
    · rw [show firstSymbol? "array\x7b".toList = some '\x7b' by decide, Option.some_or]
    · rw [show firstSymbol? "list\x7b".toList = some '\x7b' by decide, Option.some_or]
  -- lowering a letter keeps the characters of names apart from the others
  have hlower : (fun c => !isNameChar c) ∘ Char.toLower = fun c => !isNameChar c :=
    funext fun c => by simp
  rw [firstSymbol?, List.find?_map, hlower, Option.map_eq_some_iff] at hbrace
  obtain ⟨c, hc, hlow⟩ := hbrace
  rw [firstSymbol?, hc, eq_brace_of_toLower hlow]

/-- Where the text is no word of the grammar, only shapes count. -/
theorem wordType?_eq_shape {cs : List Char} (h : isReserved (String.ofList cs) = false) :
    wordType? cs = if isShape (lowered cs) then some .anyArray else none := by
  rw [isReserved_ofList] at h
  simp only [Bool.or_eq_false_iff] at h
  obtain ⟨⟨⟨hscalar, harray⟩, -⟩, hnull⟩ := h
  rw [Option.isSome_eq_false_iff, Option.isNone_iff_eq_none] at hscalar
  rw [wordType?_eq, hscalar]
  simp [hnull, harray]

/-- A text that is neither a word of the grammar nor a shape stands for no type by itself. -/
theorem wordType?_of_not_isReserved {cs : List Char} (h : isReserved (String.ofList cs) = false)
    (hshape : isShape (lowered cs) = false) : wordType? cs = none := by
  rw [wordType?_eq_shape h, hshape]
  rfl

/-- A text with a character that belongs to no name is no word, and it is a shape only if the first
such character is a brace. -/
theorem wordType?_eq_none {c : Char} {cs : List Char} (h : firstSymbol? cs = some c)
    (hc : c ≠ '\x7b') : wordType? cs = none := by
  refine wordType?_of_not_isReserved (Bool.eq_false_iff.mpr fun hres => ?_)
    (Bool.eq_false_iff.mpr fun hshape => hc ?_)
  · rw [firstSymbol?_of_forall (nameChars_of_isReserved hres).2] at h
    cases h
  · rw [firstSymbol?_of_isShape hshape] at h
    exact (Option.some.inj h).symm

/-! ### One step of reading -/

/-- What was found is merged, unless nothing was found. -/
theorem mergeFound_eq (found : List (Option Ty)) : mergeFound found =
    if found.filterMap id = [] then none else some (.merge (found.filterMap id)) := by
  unfold mergeFound
  cases found.filterMap id <;> rfl

/-- A text is cut at the bars outside brackets, and what the pieces give is merged; with no such bar
it is one alternative. -/
theorem alternatives_eq (cs : List Char) : alternatives cs =
    if 1 < (splitOutside '|' cs).length then
      Except.map mergeFound ((splitOutside '|' cs).mapM alternative)
    else alternative cs := by
  -- the definition goes over the parts together with their membership, which bounds their lengths
  have hattach : ((splitOutside '|' cs).attach.mapM fun x => alternative x.1)
      = (splitOutside '|' cs).mapM alternative := by
    conv_rhs => rw [← List.attach_map_subtype_val (splitOutside '|' cs)]
    rw [List.mapM_map]
    rfl
  rw [alternatives, ← hattach]

/-- The order in which the forms of an alternative are tried. -/
theorem alternative_eq {c : Char} {cs body : List Char} (h : trim cs = c :: body) : alternative cs =
    if isWrapped (c :: body) then expression body.dropLast
    else if 1 < (splitOutside '&' (c :: body)).length then .ok (some .mixed)
    else if c = '?' then optional body
    else
      match wordType? (c :: body) with
      | some t => .ok (some t)
      | none =>
        match genericParts? (c :: body) with
        | some (name, args) =>
          if isArrayName name then (arrayArguments args).map some
          else (Ty.ofName (String.ofList (Text.dropBackslashes name)) false).map some
        | none =>
          if endsWithBrackets (c :: body) then
            (expression (c :: body).dropLast.dropLast).map fun value =>
              some (.array (value.getD .mixed) false)
          else wordOrName (c :: body) := by
  rw [alternative]
  split
  · next heq => rw [h] at heq; cases heq
  · next c' body' heq =>
    obtain ⟨rfl, rfl⟩ := List.cons.inj (h.symm.trans heq)
    cases hg : genericParts? (c :: body) with
    | none => rfl
    | some p => rfl

/-- Blanks are no alternative. -/
theorem alternative_of_blank {cs : List Char} (h : trim cs = []) : alternative cs = .ok none := by
  rw [alternative]
  split
  · rfl
  · next heq => rw [h] at heq; cases heq

/-- Whatever is read as a type is not blank. -/
theorem trim_ne_nil_of_alternative {cs : List Char} {t : Ty} (h : alternative cs = .ok (some t)) :
    trim cs ≠ [] := fun heq => by
  rw [alternative_of_blank heq] at h
  cases h

/-- The reading of an alternative does not see the blanks around it. -/
theorem alternative_congr {cs ds : List Char} (h : trim cs = trim ds) :
    alternative cs = alternative ds := by
  cases hcs : trim cs with
  | nil => rw [alternative_of_blank hcs, alternative_of_blank (h ▸ hcs)]
  | cons c body => rw [alternative_eq hcs, alternative_eq (h ▸ hcs)]

/-- Blanks around alternatives do not matter. -/
theorem alternatives_congr {cs ds : List Char} (h : trim cs = trim ds) :
    alternatives cs = alternatives ds := by
  have hsplit : splitOutside '|' cs = splitOutside '|' ds := by
    rw [← splitOutside_trim (by decide) cs, h, splitOutside_trim (by decide)]
  rw [alternatives_eq, alternatives_eq, hsplit, alternative_congr h]

/-- Blanks have no alternatives. -/
theorem alternatives_of_blank {cs : List Char} (h : trim cs = []) : alternatives cs = .ok none := by
  have hnil : alternatives [] = .ok none := by
    rw [alternatives_eq, alternative_of_blank rfl]
    rfl
  have htrim : trim cs = trim [] := h
  rw [alternatives_congr htrim, hnil]

theorem trim_ne_nil_of_alternatives {cs : List Char} {t : Ty}
    (h : alternatives cs = .ok (some t)) : trim cs ≠ [] := fun heq => by
  rw [alternatives_of_blank heq] at h
  cases h

theorem alternatives_trim (cs : List Char) : alternatives (trim cs) = alternatives cs :=
  alternatives_congr (Text.trim_trim cs)

theorem optional_of_blank {cs : List Char} (h : trim cs = []) : optional cs = .ok none := by
  rw [optional]
  split
  · rfl
  · next heq => rw [h] at heq; cases heq

/-- Behind a question mark the alternatives are read, and null is allowed. -/
theorem optional_eq {cs : List Char} (h : trim cs ≠ []) :
    optional cs = (alternatives cs).map fun t => t.map (·.withNullable true) := by
  rw [optional]
  split
  · next heq => exact absurd heq h
  · next c body heq =>
    rw [← heq, alternatives_trim]

theorem expression_of_blank {cs : List Char} (h : trim cs = []) : expression cs = .ok none := by
  rw [expression]
  split
  · rfl
  · next heq => rw [h] at heq; cases heq
  · next heq => rw [h] at heq; cases heq

/-- A question mark in front makes the whole expression optional. -/
theorem expression_of_mark {cs rest : List Char} (h : trim cs = '?' :: rest) :
    expression cs = optional rest := by
  rw [expression]
  split
  · next heq => rw [h] at heq; cases heq
  · next heq => rw [(List.cons.inj (h.symm.trans heq)).2]
  · next hne heq => exact absurd (List.cons.inj (h.symm.trans heq)).1.symm hne

/-- Without a question mark in front an expression consists of its alternatives. -/
theorem expression_of_head_ne {cs : List Char} (h : trim cs ≠ [])
    (hhead : (trim cs).head? ≠ some '?') : expression cs = alternatives cs := by
  rw [expression]
  split
  · next heq => exact absurd heq h
  · next heq => rw [heq] at hhead; exact absurd rfl hhead
  · next heq => rw [← heq, alternatives_trim]

/-- Blanks around an expression do not matter. -/
theorem expression_congr {cs ds : List Char} (h : trim cs = trim ds) :
    expression cs = expression ds := by
  cases hcs : trim cs with
  | nil => rw [expression_of_blank hcs, expression_of_blank (h ▸ hcs)]
  | cons c body =>
    by_cases hc : c = '?'
    · subst hc
      rw [expression_of_mark hcs, expression_of_mark (h ▸ hcs)]
    · have hne : trim cs ≠ [] := by rw [hcs]; exact List.cons_ne_nil c body
      have hhead : (trim cs).head? ≠ some '?' := by simpa [hcs] using hc
      rw [expression_of_head_ne hne hhead, expression_of_head_ne (h ▸ hne) (h ▸ hhead),
        alternatives_congr h]

/-- A question mark in front of a text with something in it sets the flag of what stands behind. -/
theorem expression_question {a cs : List Char} (ha : Blank a) (h : trim cs ≠ []) :
    expression (a ++ '?' :: cs) = (alternatives cs).map fun t => t.map (·.withNullable true) := by
  have htrim : trim (a ++ '?' :: cs) = '?' :: Text.trimRight cs := by
    rw [Text.trim_blank_append ha, Text.trim_cons (by decide)]
  have hright : trim (Text.trimRight cs) = trim cs := Text.trim_trimRight cs
  rw [expression_of_mark htrim, optional_eq (by rwa [hright]), alternatives_congr hright]

/-! ### Reading one alternative -/

section Alternative

variable {cs w args : List Char}

theorem not_isBlank_of_isNameChar_or {d : Char} (hd : isBlank d = false) (c : Char)
    (h : (isNameChar c || c == d) = true) : isBlank c = false := by
  rcases Bool.or_eq_true _ _ ▸ h with hname | heq
  · exact not_isBlank_of_isNameChar hname
  · rwa [beq_iff_eq.mp heq]

/-- A text of name characters and brackets has no blanks around it. -/
theorem trim_of_nested (h : Nested isNameChar cs) : trim cs = cs :=
  h.trim_eq_self fun _ => not_isBlank_of_isNameChar

/-- Such a text does not begin with a question mark. -/
theorem head_ne_question (h : Nested isNameChar cs) : cs.head? ≠ some '?' := fun heq => by
  rcases h.head '?' heq with hq | hq
  · exact absurd hq (by decide)
  · exact absurd hq (by decide)

/-- A phrase of names and brackets that is no group and no shape is an array or another name with
arguments, an array with brackets behind its values, a word or a name. -/
theorem alternative_of_nested (h : Nested isNameChar cs) (hne : cs ≠ [])
    (hwrap : isWrapped cs = false) : alternative cs =
      match wordType? cs with
      | some t => .ok (some t)
      | none =>
        match genericParts? cs with
        | some (name, args) =>
          if isArrayName name then (arrayArguments args).map some
          else (Ty.ofName (String.ofList (Text.dropBackslashes name)) false).map some
        | none =>
          if endsWithBrackets cs then
            (expression cs.dropLast.dropLast).map fun value =>
              some (.array (value.getD .mixed) false)
          else wordOrName cs := by
  have htrim := trim_of_nested h
  have hsplit : splitOutside '&' cs = [trim cs] :=
    splitOutside_eq_singleton (by decide) h (by decide)
  cases cs with
  | nil => exact absurd rfl hne
  | cons c body =>
    have hquestion : c ≠ '?' := fun heq => head_ne_question h (by rw [heq]; rfl)
    rw [alternative_eq htrim, hwrap, hsplit]
    simp [hquestion]

/-- A phrase of names and brackets is one alternative. -/
theorem expression_of_nested (h : Nested isNameChar cs) (hne : cs ≠ []) :
    expression cs = alternative cs := by
  have hsplit : splitOutside '|' cs = [trim cs] :=
    splitOutside_eq_singleton (by decide) h (by decide)
  have htrim := trim_of_nested h
  rw [expression_of_head_ne (by rwa [htrim]) (by rw [htrim]; exact head_ne_question h),
    alternatives_eq, hsplit]
  simp

theorem nested_of_nameChars (h : ∀ c ∈ w, isNameChar c = true) : Nested isNameChar w := by
  refine .of_forall fun c hc => ⟨?_, ?_, h c hc⟩
  · refine Bool.eq_false_iff.mpr fun ho => ?_
    have hname := h c hc
    simp only [isOpener, Bool.or_eq_true, beq_iff_eq] at ho
    rcases ho with ((rfl | rfl) | rfl) | rfl <;> exact absurd hname (by decide)
  · refine Bool.eq_false_iff.mpr fun hcl => ?_
    have hname := h c hc
    simp only [isCloser, Bool.or_eq_true, beq_iff_eq] at hcl
    rcases hcl with ((rfl | rfl) | rfl) | rfl <;> exact absurd hname (by decide)

/-- A name with arguments is a name, blanks, and the arguments in angle brackets. -/
theorem genericParts?_eq_some {name : List Char} : genericParts? cs = some (name, args) ↔
    ∃ b, Blank b ∧ name ≠ [] ∧ (∀ c ∈ name, isNameChar c = true) ∧
      cs = name ++ (b ++ '<' :: (args ++ ['>'])) := by
  constructor
  · intro h
    unfold genericParts? at h
    split at h
    · next c tail rest htake hrest =>
      split at h
      · next hlast =>
        obtain ⟨rfl, rfl⟩ := Prod.mk.inj (Option.some.inj h)
        obtain ⟨args, rfl⟩ := List.getLast?_eq_some_iff.mp hlast
        obtain ⟨b, hb, hdrop⟩ := Text.exists_eq_append_trimLeft (cs.dropWhile isNameChar)
        refine ⟨b, hb, List.cons_ne_nil c tail, fun d hd => ?_, ?_⟩
        · rw [← htake] at hd
          exact List.all_eq_true.mp List.all_takeWhile d hd
        · rw [List.dropLast_concat, ← hrest, ← hdrop, ← htake, List.takeWhile_append_dropWhile]
      · cases h
    · cases h
  · rintro ⟨b, hb, hne, hname, rfl⟩
    have hlt : isNameChar '<' = false := by decide
    have hltBlank : isBlank '<' = false := by decide
    -- neither a blank nor the bracket belongs to the name
    have hstop : (b ++ '<' :: (args ++ ['>'])).takeWhile isNameChar = [] ∧
        (b ++ '<' :: (args ++ ['>'])).dropWhile isNameChar = b ++ '<' :: (args ++ ['>']) := by
      cases b with
      | nil => simp [hlt]
      | cons d b =>
        have hd : isNameChar d = false := Bool.eq_false_iff.mpr fun hd => by
          have hblank := hb d List.mem_cons_self
          rw [not_isBlank_of_isNameChar hd] at hblank
          cases hblank
        simp [hd]
    have htrim : trimLeft (b ++ '<' :: (args ++ ['>'])) = '<' :: (args ++ ['>']) := by
      rw [Text.trimLeft_append_of_blank hb]
      simp [trimLeft, hltBlank]
    rw [genericParts?, List.takeWhile_append_of_pos hname, List.dropWhile_append_of_pos hname,
      hstop.1, hstop.2, htrim, List.append_nil]
    cases name with
    | nil => exact absurd rfl hne
    | cons c tail => simp

/-- A name with arguments is taken apart at the first angle bracket. -/
theorem genericParts?_append (hne : w ≠ []) (h : ∀ c ∈ w, isNameChar c = true) :
    genericParts? (w ++ '<' :: (args ++ ['>'])) = some (w, args) :=
  genericParts?_eq_some.mpr ⟨[], .nil, hne, h, rfl⟩

/-- Arguments stand in angle brackets, so the text ends with one. -/
theorem getLast?_of_genericParts? {p : List Char × List Char} (h : genericParts? cs = some p) :
    cs.getLast? = some '>' := by
  obtain ⟨b, -, -, -, rfl⟩ := genericParts?_eq_some.mp h
  rw [List.getLast?_append, List.getLast?_append, List.getLast?_cons, List.getLast?_concat]
  rfl

/-- Name characters alone are a word of the grammar or the name of a class. -/
theorem alternative_of_nameChars (hne : cs ≠ []) (h : ∀ c ∈ cs, isNameChar c = true) :
    alternative cs =
      match wordType? cs with
      | some t => .ok (some t)
      | none => wordOrName cs := by
  have hlast : ∀ d, isNameChar d = false → cs.getLast? ≠ some d := fun d hd heq => by
    rw [h d (List.mem_of_getLast? heq)] at hd
    cases hd
  have hgeneric : genericParts? cs = none := by
    refine Option.eq_none_iff_forall_not_mem.mpr fun p hp => ?_
    exact hlast '>' (by decide) (getLast?_of_genericParts? hp)
  have hbrackets : endsWithBrackets cs = false := by
    unfold endsWithBrackets
    split
    · next heq =>
      refine absurd ?_ (hlast ']' (by decide))
      rw [List.getLast?_eq_head?_reverse, heq]
      rfl
    · rfl
  rw [alternative_of_nested (nested_of_nameChars h) hne
    (not_isWrapped_of_getLast (hlast ')' (by decide))), hgeneric, hbrackets]
  rfl

/-- Of a name with arguments the arguments count only if it is the name of an array. -/
theorem alternative_generic {p : Char → Bool} (hne : w ≠ []) (hw : ∀ c ∈ w, isNameChar c = true)
    (hargs : Nested p args) : alternative (w ++ '<' :: (args ++ ['>'])) =
      if isArrayName w then (arrayArguments args).map some
      else (Ty.ofName (String.ofList (Text.dropBackslashes w)) false).map some := by
  have hnested : Nested isNameChar (w ++ '<' :: (args ++ ['>'])) :=
    (nested_of_nameChars hw).append (.bracketed rfl hargs)
  have hfirst : firstSymbol? (w ++ '<' :: (args ++ ['>'])) = some '<' := by
    rw [firstSymbol?_append, firstSymbol?_of_forall hw, firstSymbol?_cons (by decide),
      Option.none_or]
  have hwrap : isWrapped (w ++ '<' :: (args ++ ['>'])) = false := by
    refine not_isWrapped_of_getLast ?_
    rw [← List.cons_append, ← List.append_assoc, List.getLast?_concat]
    decide
  rw [alternative_of_nested hnested (by simp) hwrap,
    wordType?_eq_none hfirst (by decide), genericParts?_append hne hw]

/-- Parentheses around an expression are dropped. -/
theorem alternative_group {p : Char → Bool} (h : Nested p cs) :
    alternative ('(' :: (cs ++ [')'])) = expression cs := by
  rw [alternative_eq (trim_of_nested (.bracketed rfl h)), isWrapped_group h]
  simp

/-- Brackets behind a phrase of names and brackets make an array of it. -/
theorem alternative_brackets {t : Ty} (h : Nested isNameChar cs)
    (hbrace : firstSymbol? cs ≠ some '\x7b') (hread : alternative cs = .ok (some t)) :
    alternative (cs ++ ['[', ']']) = .ok (some (.array t false)) := by
  have hne : cs ≠ [] := fun heq => trim_ne_nil_of_alternative hread (by rw [heq]; rfl)
  have hlast : ∀ d, d ≠ ']' → (cs ++ ['[', ']']).getLast? ≠ some d := fun d hd heq => by
    have hend : (cs ++ ['[', ']']).getLast? = some ']' := by simp
    rw [hend] at heq
    exact hd (Option.some.inj heq).symm
  have hword : wordType? (cs ++ ['[', ']']) = none := by
    have hopen : firstSymbol? ['[', ']'] = some '[' := by decide
    cases hfirst : firstSymbol? cs with
    | none => exact wordType?_eq_none (c := '[') (by simp [hfirst, hopen]) (by decide)
    | some c => exact wordType?_eq_none (c := c) (by simp [hfirst]) fun heq => hbrace (heq ▸ hfirst)
  have hgeneric : genericParts? (cs ++ ['[', ']']) = none := by
    refine Option.eq_none_iff_forall_not_mem.mpr fun p hp => ?_
    exact hlast '>' (by decide) (getLast?_of_genericParts? hp)
  have hbrackets : endsWithBrackets (cs ++ ['[', ']']) = true := by
    simp [endsWithBrackets]
  have hdrop : (cs ++ ['[', ']']).dropLast.dropLast = cs := by
    rw [show cs ++ ['[', ']'] = (cs ++ ['[']) ++ [']'] by simp, List.dropLast_concat,
      List.dropLast_concat]
  have hnested : Nested isNameChar (cs ++ ['[', ']']) :=
    h.append (@Nested.bracketed isNameChar isNameChar [] '[' ']' rfl .nil)
  rw [alternative_of_nested hnested (by simp) (not_isWrapped_of_getLast (hlast ')' (by decide))),
    hword, hgeneric, hbrackets, hdrop, expression_of_nested h hne, hread]
  rfl

end Alternative

end TypeFacts.TypeText
