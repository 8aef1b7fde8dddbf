import TypeFacts.Proofs.TypeText.Parts

/-!
# The spellings of nullability

A question mark in front of a text and the alternative `null` beside it, on either side, set the
flag of the type that the text describes, whatever the text is, as long as its brackets are nested
(`parse_nullable`).

* The parts of a nested text and of another one joined by the separator are those of the first,
  followed by those of the second (`pieces_append_sep`), so `null` becomes one more alternative, and
  merging turns it into the flag (`alternatives_append_null`).
* A question mark in front of a text that has one already goes to its first alternative, together
  with the first: there it sets the flag of this alternative alone, or it does nothing because the
  alternative is an intersection (`alternative_mark`). Either way the flag of the whole is the same
  in the end (`alternatives_mark`). Here brackets have to be nested: an intersection is looked for
  between brackets of all kinds, a group between parentheses.
-/

namespace TypeFacts.TypeText

open Text (Blank isBlank trim trimLeft trimRight)

/-! ### Parts of nested texts -/

section Nesting

variable {p : Char → Bool} {cs : List Char}

theorem Nested.of_cons {c : Char} (ho : isOpener c = false) (h : Nested p (c :: cs)) :
    Nested p cs := by
  cases h with
  | char _ _ _ h => exact h
  | group hoc _ _ =>
    rw [isOpener_of_closerOf? hoc] at ho
    cases ho

theorem Nested.of_concat {c : Char} (hc : isCloser c = false) (h : Nested p (cs ++ [c])) :
    Nested p cs := by
  generalize hds : cs ++ [c] = ds at h
  induction h generalizing cs with
  | nil => simp at hds
  | char ho hcl hp _ ih =>
    cases cs with
    | nil => exact .nil
    | cons e cs =>
      obtain ⟨rfl, htail⟩ := List.cons.inj hds
      exact .char ho hcl hp (ih htail)
  | @group p o e inner rest hoc hin _ _ ih =>
    -- the last character closes nothing, so it stands behind the group
    rcases List.eq_nil_or_concat rest with rfl | ⟨rest, d, rfl⟩
    · have hlast : cs ++ [c] = (o :: inner) ++ [e] := by simpa using hds
      have hce : c = e := List.singleton_inj.mp (List.append_inj' hlast rfl).2
      rw [hce, isCloser_of_closerOf? hoc] at hc
      cases hc
    · have hlast : cs ++ [c] = (o :: (inner ++ e :: rest)) ++ [d] := by simpa using hds
      obtain ⟨rfl, hd⟩ := List.append_inj' hlast rfl
      exact .group hoc hin (ih (by rw [List.concat_eq_append, hd]))

theorem Nested.of_blank_append {a : List Char} (ha : Blank a) (h : Nested p (a ++ cs)) :
    Nested p cs := by
  induction a with
  | nil => exact h
  | cons c a ih =>
    have hopener := not_isOpener_of_isBlank (ha c List.mem_cons_self)
    exact ih (fun d hd => ha d (List.mem_cons_of_mem c hd)) (h.of_cons hopener)

/-- Without the blanks around it a nested text is nested. -/
theorem Nested.trim (h : Nested p cs) : Nested p (trim cs) := by
  have hright : ∀ {b ds : List Char}, Blank b → Nested p (ds ++ b) → Nested p ds := by
    intro b ds hb h
    induction b using List.reverseRecOn with
    | nil => simpa using h
    | append_singleton b c ih =>
      rw [← List.append_assoc] at h
      have hcloser := not_isCloser_of_isBlank (hb c (by simp))
      exact ih (fun d hd => hb d (by simp [hd])) (h.of_concat hcloser)
  obtain ⟨a, b, ha, hb, heq⟩ := Text.exists_eq_pad_trim cs
  rw [heq] at h
  exact hright hb (h.of_blank_append ha)

/-- A group in brackets belongs to the first piece. -/
theorem pieces_group {sep o c : Char} {inner : List Char} (hc : isCloser sep = false)
    (hoc : closerOf? o = some c) (hin : Nested (fun _ => true) inner) (rest : List Char) :
    pieces sep 0 (o :: (inner ++ c :: rest)) =
      (pieces sep 0 rest).modifyHead fun piece => o :: (inner ++ c :: piece) := by
  have hgroup : Nested (fun _ => false) (o :: (inner ++ [c])) := .bracketed hoc hin
  have hpieces := pieces_append hc hgroup (fun _ => rfl) rest (d := 0)
  simpa using hpieces

/-- The first piece of a nested text is nested, and the separator does not stand in it outside
of brackets. -/
theorem Nested.first_piece (sep : Char) (ho : isOpener sep = false) (hc : isCloser sep = false)
    (h : Nested (fun _ => true) cs) :
    ∃ first rest, pieces sep 0 cs = first :: rest ∧ Nested (fun c => c != sep) first := by
  generalize hp : (fun _ => true : Char → Bool) = p at h
  -- the induction is on the nesting: a group as a whole goes to the first piece
  induction h with
  | nil => exact ⟨[], [], rfl, .nil⟩
  | @char p c cs hco hcc _ _ ih =>
    by_cases hsep : c = sep
    · rw [hsep, pieces_cons_sep ho hc]
      exact ⟨[], _, rfl, .nil⟩
    · obtain ⟨first, rest, hpieces, hfirst⟩ := ih hp
      rw [pieces_cons_of_no_cut (.inl hsep), depthAfter_of_plain hco hcc, hpieces]
      exact ⟨c :: first, rest, rfl, .char hco hcc (by simpa using hsep) hfirst⟩
  | @group p o c inner behind hoc hin _ _ ih =>
    obtain ⟨first, rest, hpieces, hfirst⟩ := ih hp
    rw [pieces_group hc hoc hin, hpieces]
    exact ⟨_, rest, rfl, .group hoc hin hfirst⟩

/-- The pieces of a nested text with a separator behind it. -/
theorem pieces_append_sep {sep : Char} (ho : isOpener sep = false) (hc : isCloser sep = false)
    (h : Nested (fun _ => true) cs) (ds : List Char) :
    pieces sep 0 (cs ++ sep :: ds) = pieces sep 0 cs ++ pieces sep 0 ds := by
  have hmodify : ∀ {f : List Char → List Char} {xs ys : List (List Char)}, xs ≠ [] →
      (xs ++ ys).modifyHead f = xs.modifyHead f ++ ys := by
    intro f xs ys hne
    cases xs with
    | nil => exact absurd rfl hne
    | cons x xs => rfl
  generalize hp : (fun _ => true : Char → Bool) = p at h
  induction h with
  | nil => exact pieces_cons_sep ho hc ds
  | @char p c cs hco hcc _ _ ih =>
    have hplain : depthAfter 0 c = 0 := depthAfter_of_plain hco hcc 0
    by_cases hsep : c = sep
    · rw [List.cons_append, hsep, pieces_cons_sep ho hc, pieces_cons_sep ho hc, ih hp]
      rfl
    · rw [List.cons_append, pieces_cons_of_no_cut (.inl hsep), pieces_cons_of_no_cut (.inl hsep),
        hplain, ih hp, hmodify (pieces_ne_nil sep 0 cs)]
  | @group p o c inner rest hoc hin _ _ ih =>
    have hassoc : o :: (inner ++ c :: rest) ++ sep :: ds =
        o :: (inner ++ c :: (rest ++ sep :: ds)) := by
      simp
    rw [hassoc, pieces_group hc hoc hin, pieces_group hc hoc hin, ih hp,
      hmodify (pieces_ne_nil sep 0 rest)]

end Nesting

/-! ### Null beside a text -/

/-- What is found in the parts of a text, where it is read as a type. -/
theorem exists_found {cs : List Char} {t : Ty} (h : alternatives cs = .ok (some t)) :
    ∃ found, (splitOutside '|' cs).mapM alternative = .ok found ∧ found.filterMap id ≠ [] ∧
      t = .merge (found.filterMap id) ∧ ∀ u ∈ found.filterMap id, u.WellFormed := by
  rw [alternatives_eq_mergeFound] at h
  obtain ⟨found, hfound, hmerge⟩ := exists_of_map_eq_ok h
  rw [mergeFound_eq] at hmerge
  split_ifs at hmerge with hnil
  have hyields : Yields ((splitOutside '|' cs).mapM alternative) fun found =>
      ∀ o ∈ found, ∀ u ∈ o, u.WellFormed ∧ u.AllNames Unslashed :=
    Yields.mapM fun a _ => readerClosed_wellFormed.reads.2.2.1 a
  refine ⟨found, hfound, hnil, (Option.some.inj hmerge).symm, fun u hu => ?_⟩
  obtain ⟨o, ho, hou⟩ := List.mem_filterMap.mp hu
  exact (hyields found hfound o ho u hou).1

theorem alternatives_of_found {cs : List Char} {found : List (Option Ty)}
    (h : (splitOutside '|' cs).mapM alternative = .ok found) (hne : found.filterMap id ≠ []) :
    alternatives cs = .ok (some (.merge (found.filterMap id))) := by
  rw [alternatives_eq_mergeFound, h]
  exact congrArg Except.ok ((mergeFound_eq found).trans (if_neg hne))

theorem alternative_null : alternative "null".toList = .ok (some .null) := by
  rw [alternative_of_nameChars (by decide) (List.all_eq_true.mp (by decide))]
  rfl

/-- The word for null, as a part of its own in front of a text. -/
theorem alternatives_null_append {cs : List Char} {t : Ty} (h : alternatives cs = .ok (some t)) :
    alternatives ("null".toList ++ '|' :: cs) = .ok (some (t.withNullable true)) := by
  obtain ⟨found, hfound, hne, rfl, hwf⟩ := exists_found h
  have hnested : Nested (fun _ => true) "null".toList :=
    (nested_of_nameChars (List.all_eq_true.mp (by decide))).mono fun _ _ => rfl
  have hparts : splitOutside '|' ("null".toList ++ '|' :: cs) =
      "null".toList :: splitOutside '|' cs := by
    rw [splitOutside, pieces_append_sep (by decide) (by decide) hnested]
    rfl
  have hall : (splitOutside '|' ("null".toList ++ '|' :: cs)).mapM alternative =
      .ok (some .null :: found) := by
    rw [hparts, List.mapM_cons, alternative_null, hfound]
    rfl
  rw [alternatives_of_found hall (by simp), ← Ty.merge_concat_null hne hwf]
  exact congrArg _ (congrArg _ (Ty.merge_congr fun u => by simp [or_comm]))

/-- The word for null, as a part of its own behind a nested text. -/
theorem alternatives_append_null {cs : List Char} (hnested : Nested (fun _ => true) cs) {t : Ty}
    (h : alternatives cs = .ok (some t)) :
    alternatives (cs ++ '|' :: "null".toList) = .ok (some (t.withNullable true)) := by
  obtain ⟨found, hfound, hne, rfl, hwf⟩ := exists_found h
  have hparts : splitOutside '|' (cs ++ '|' :: "null".toList) =
      splitOutside '|' cs ++ ["null".toList] := by
    rw [splitOutside, pieces_append_sep (by decide) (by decide) hnested, List.map_append]
    rfl
  have hall : (splitOutside '|' (cs ++ '|' :: "null".toList)).mapM alternative =
      .ok (found ++ [some .null]) := by
    rw [hparts, List.mapM_append, hfound, List.mapM_cons, List.mapM_nil, alternative_null]
    rfl
  have hfilter : (found ++ [some Ty.null]).filterMap id = found.filterMap id ++ [.null] := by
    simp
  rw [alternatives_of_found hall (by simp), hfilter, Ty.merge_concat_null hne hwf]

/-! ### A question mark in front of a text -/

/-- A question mark belongs to the first piece. -/
theorem pieces_question (sep : Char) (hsep : sep ≠ '?') (cs : List Char) :
    pieces sep 0 ('?' :: cs) = (pieces sep 0 cs).modifyHead ('?' :: ·) :=
  pieces_cons_of_no_cut (.inl hsep.symm) cs

/-- A nested text with an intersection in it is no group. -/
theorem not_isWrapped_of_intersection {cs : List Char} (h : Nested (fun _ => true) cs)
    (hmany : 1 < (splitOutside '&' cs).length) : isWrapped cs = false := by
  obtain ⟨first, rest, hpieces, hfirst⟩ := h.first_piece '&' (by decide) (by decide)
  have hjoin := intercalate_pieces '&' 0 cs
  rw [length_splitOutside, hpieces] at hmany
  cases rest with
  | nil => exact absurd hmany (by simp)
  | cons second rest =>
    rw [hpieces, List.intercalate_cons_cons, List.append_assoc] at hjoin
    rw [← hjoin]
    by_cases hnil : first = []
    · refine not_isWrapped_of_head ?_
      rw [hnil]
      simp
    · exact not_isWrapped_append hfirst hnil (by simp)

/-- A question mark in front of an alternative sets its flag, unless the alternative is an
intersection, whose type has no flag. -/
theorem alternative_mark {cs : List Char} (h : Nested (fun c => c != '|') cs) :
    alternative ('?' :: cs) = (alternative cs).map (fun t => t.map (·.withNullable true)) ∨
      alternative ('?' :: cs) = .ok (some .mixed) ∧ alternative cs = .ok (some .mixed) := by
  have htrim : trim ('?' :: cs) = '?' :: trimRight cs := Text.trim_cons (by decide) cs
  have hright : trim (trimRight cs) = trim cs := Text.trim_trimRight cs
  have hwrap : isWrapped ('?' :: trimRight cs) = false := not_isWrapped_of_head (by simp)
  have hand : (splitOutside '&' ('?' :: trimRight cs)).length =
      (splitOutside '&' (trim cs)).length := by
    rw [← splitOutside_trim (by decide) (trim cs), Text.trim_trim, ← hright,
      splitOutside_trim (by decide), length_splitOutside, length_splitOutside,
      pieces_question '&' (by decide), List.length_modifyHead]
  rw [alternative_eq htrim, hwrap, hand]
  by_cases hmany : 1 < (splitOutside '&' (trim cs)).length
  · -- both texts are intersections
    right
    have hne : trim cs ≠ [] := fun heq => by
      rw [heq] at hmany
      exact absurd hmany (by decide)
    obtain ⟨c, body, hbody⟩ := List.exists_cons_of_ne_nil hne
    have hgroup : isWrapped (trim cs) = false :=
      not_isWrapped_of_intersection (h.trim.mono fun _ _ => rfl) hmany
    rw [alternative_eq hbody, ← hbody, hgroup]
    simp only [Bool.false_eq_true, if_false, hmany, if_true, and_self]
  · -- the mark is read, and behind it the alternatives of the text, which is only one
    left
    have hone : splitOutside '|' cs = [trim cs] :=
      splitOutside_eq_singleton (by decide) h (by decide)
    have hread : alternatives cs = alternative cs := by
      rw [alternatives_eq, hone]
      simp
    simp only [Bool.false_eq_true, if_false, hmany, if_true]
    rw [optional_eq_alternatives, alternatives_congr hright, hread]

/-- A question mark in front of a nested text does not change what the flag hides. -/
theorem alternatives_mark {cs : List Char} (h : Nested (fun _ => true) cs) {t : Ty}
    (hread : alternatives cs = .ok (some t)) :
    ∃ u, alternatives ('?' :: cs) = .ok (some u) ∧ u.withNullable true = t.withNullable true := by
  obtain ⟨found, hfound, hne, rfl, hwf⟩ := exists_found hread
  obtain ⟨first, rest, hpieces, hfirst⟩ := h.first_piece '|' (by decide) (by decide)
  have hparts : splitOutside '|' cs = trim first :: rest.map trim := by
    rw [splitOutside, hpieces, List.map_cons]
  have hmarked : splitOutside '|' ('?' :: cs) = trim ('?' :: first) :: rest.map trim := by
    rw [splitOutside, pieces_question '|' (by decide), hpieces, List.modifyHead_cons, List.map_cons]
  rw [hparts, List.mapM_cons, alternative_congr (Text.trim_trim first)] at hfound
  obtain ⟨o, ho, hfound⟩ := bind_eq_ok.mp hfound
  obtain ⟨os, hos, hfound⟩ := bind_eq_ok.mp hfound
  obtain rfl := Except.ok.inj hfound
  have hall : ∀ {o' : Option Ty}, alternative ('?' :: first) = .ok o' →
      (splitOutside '|' ('?' :: cs)).mapM alternative = .ok (o' :: os) := by
    intro o' ho'
    rw [hmarked, List.mapM_cons, alternative_congr (Text.trim_trim ('?' :: first)), ho', hos]
    rfl
  rcases alternative_mark hfirst with hflag | ⟨hmixed, hmixed'⟩
  · rw [ho] at hflag
    cases o with
    | none => exact ⟨_, alternatives_of_found (hall hflag) hne, rfl⟩
    | some x =>
      refine ⟨_, alternatives_of_found (hall hflag) (by simp), ?_⟩
      have hx : x.WellFormed := hwf x (by simp)
      have hmerge : Ty.merge (x.withNullable true :: os.filterMap id) =
          (Ty.merge (x :: os.filterMap id)).withNullable true := Ty.merge_withNullable_cons hx
      simp only [Option.map_some, List.filterMap_cons, id] at hmerge ⊢
      rw [hmerge, Ty.withNullable_withNullable]
  · obtain rfl : some .mixed = o := Except.ok.inj (hmixed'.symm.trans ho)
    exact ⟨_, alternatives_of_found (hall hmixed) hne, rfl⟩

/-! ### The three spellings -/

/-- A text that is read as a type has a question mark in front of the text of another type, or it is
read by its alternatives. -/
theorem expression_cases {cs : List Char} {t : Ty} (h : expression cs = .ok (some t)) :
    (∃ a ds u, Blank a ∧ cs = a ++ '?' :: ds ∧ alternatives ds = .ok (some u) ∧
      t = u.withNullable true) ∨
    (trim cs).head? ≠ some '?' ∧ trim cs ≠ [] ∧ alternatives cs = .ok (some t) := by
  by_cases hmark : (trim cs).head? = some '?'
  · left
    obtain ⟨rest, hrest⟩ := List.head?_eq_some_iff.mp hmark
    obtain ⟨a, b, ha, hb, hcs⟩ := Text.exists_eq_pad_trim cs
    rw [expression_of_mark hrest, optional_eq_alternatives] at h
    obtain ⟨o, ho, hmap⟩ := exists_of_map_eq_ok h
    obtain ⟨u, rfl, hu⟩ := Option.map_eq_some_iff.mp hmap
    refine ⟨a, rest ++ b, u, ha, by rw [hcs, hrest, List.cons_append], ?_, hu.symm⟩
    rw [alternatives_congr (Text.trim_append_blank hb rest), ho]
  · right
    rw [expression_eq_alternatives hmark] at h
    exact ⟨hmark, trim_ne_nil_of_alternatives h, h⟩

section Spellings

variable {cs : List Char} {t : Ty} (hnested : Nested (fun _ => true) cs)
  (h : expression cs = .ok (some t))
include hnested h

/-- The alternatives of a text describe its type up to the flag, also where a question mark stands
in front of the first one. -/
theorem exists_alternatives : ∃ u, alternatives cs = .ok (some u) ∧
    u.withNullable true = t.withNullable true := by
  rcases expression_cases h with ⟨a, ds, u, ha, rfl, hu, rfl⟩ | ⟨-, -, hread⟩
  · have hds : Nested (fun _ => true) ds := (hnested.of_blank_append ha).of_cons (by decide)
    rw [alternatives_congr (Text.trim_blank_append ha ('?' :: ds)), Ty.withNullable_withNullable]
    exact alternatives_mark hds hu
  · exact ⟨t, hread, rfl⟩

theorem expression_mark : expression ('?' :: cs) = .ok (some (t.withNullable true)) := by
  obtain ⟨u, hu, hut⟩ := exists_alternatives hnested h
  have hquestion := expression_question .nil (trim_ne_nil_of_alternatives hu)
  rw [List.nil_append, hu] at hquestion
  rw [hquestion, ← hut]
  rfl

theorem expression_null_append :
    expression ("null".toList ++ '|' :: cs) = .ok (some (t.withNullable true)) := by
  obtain ⟨u, hu, hut⟩ := exists_alternatives hnested h
  have hhead : (trim ("null".toList ++ '|' :: cs)).head? ≠ some '?' := by
    have hfirst : ("null".toList.find? fun c => !isBlank c) = some 'n' := by decide
    rw [Text.head?_trim, List.find?_append, hfirst]
    simp
  rw [expression_eq_alternatives hhead, alternatives_null_append hu, hut]

theorem expression_append_null :
    expression (cs ++ '|' :: "null".toList) = .ok (some (t.withNullable true)) := by
  rcases expression_cases h with ⟨a, ds, u, ha, rfl, hu, rfl⟩ | ⟨hmark, hne, hread⟩
  · -- the text begins with a question mark, and null is read behind it
    have hds : Nested (fun _ => true) ds := (hnested.of_blank_append ha).of_cons (by decide)
    have hnull := alternatives_append_null hds hu
    rw [List.append_assoc, List.cons_append,
      expression_question ha (trim_ne_nil_of_alternatives hnull), hnull]
    rfl
  · have hhead : (trim (cs ++ '|' :: "null".toList)).head? ≠ some '?' := by
      rwa [Text.head?_trim, List.find?_append, ← Text.head?_trim, Option.or_of_isSome]
      exact List.isSome_head?.mpr hne
    rw [expression_eq_alternatives hhead, alternatives_append_null hnested hread]

end Spellings

/-- A nested text that is read as a type, with a question mark or with null beside it. -/
theorem parse_nullable {text : String} {t : Ty} (hnested : Nested (fun _ => true) text.toList)
    (h : parse text = .ok (some t)) :
    parse ("?" ++ text) = .ok (some (t.withNullable true)) ∧
      parse (text ++ "|null") = .ok (some (t.withNullable true)) ∧
      parse ("null|" ++ text) = .ok (some (t.withNullable true)) := by
  simp only [parse, String.toList_append]
  exact ⟨expression_mark hnested h, expression_append_null hnested h,
    expression_null_append hnested h⟩

theorem parse_nullable_marked :
    let t : Ty := .union [.mixed, .array (.scalar .int false) false] true
    Nested (fun _ => true) "?A&B|int[]".toList ∧ parse "?A&B|int[]" = .ok (some t) ∧
    parse ("?" ++ "?A&B|int[]") = .ok (some t) ∧ parse ("?A&B|int[]" ++ "|null") = .ok (some t) ∧
    parse ("null|" ++ "?A&B|int[]") = .ok (some t) := by
  intro t
  have ha : IsClassName "A".toList := by decide
  have hb : IsClassName "B".toList := by decide
  have hboth : Denotes .alternative "A&B".toList .mixed := by
    refine @Denotes.intersection [("A".toList, .named "A" false), ("B".toList, .named "B" false)]
      (by decide) fun p hp => ?_
    rcases List.mem_pair.mp hp with rfl | rfl
    · exact .bare (.className ha)
    · exact .bare (.className hb)
  have hlist : Denotes .alternative "int[]".toList (.array (.scalar .int false) false) :=
    .plain (.brackets (.bare (@Denotes.scalar "int".toList _ (by decide))))
  have hdenotes : Denotes .expression "?A&B|int[]".toList t := by
    refine @Denotes.nullable [("A&B".toList, .mixed),
      ("int[]".toList, .array (.scalar .int false) false)] (by simp) fun p hp => ?_
    rcases List.mem_pair.mp hp with rfl | rfl
    · exact hboth
    · exact hlist
  have hreads : ReadsExpression "?A&B|int[]".toList t := hdenotes.reads
  have hnested : Nested (fun _ => true) "?A&B|int[]".toList := hreads.nested.mono fun _ _ => rfl
  exact ⟨hnested, hreads.read, parse_nullable hnested hreads.read⟩

end TypeFacts.TypeText
