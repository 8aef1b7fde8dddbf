import Mathlib.Data.List.Infix
import TypeFacts.Proofs.TypeText.Closure
import TypeFacts.Proofs.TypeText.Slashes

/-!
# The parts of a text that are read

The reader takes an expression apart into alternatives, and goes on with the alternatives inside
these: in parentheses, behind a question mark, in front of brackets, and in the first two arguments
of an array. It does not look into intersections, shapes, and the arguments of other names.
`Reached cs a` says that it comes to the alternative `a` when it reads the expression `cs`.

What an alternative is taken for, its form, depends on its text alone (`form`, `spelled_form`), and
what is read from it depends on its form (`alternative_eq_read`). The alternatives inside a form
stand inside its text, with at least one character around them (`exists_of_mem_parts`).
-/

namespace TypeFacts.TypeText

open Text (Blank isBlank trim)

/-! ### Forms and the parts inside them -/

/-- What the reader takes an alternative for. -/
inductive Form where
  /-- Blanks alone. -/
  | blank
  /-- An expression in parentheses. -/
  | group (inner : List Char)
  /-- An intersection, whose parts are not looked at. -/
  | intersection
  /-- Something behind a question mark. -/
  | marked (rest : List Char)
  /-- A word of the grammar, or a shape. -/
  | word (t : Ty)
  /-- A name with arguments. -/
  | generic (name args : List Char)
  /-- The elements of an array, in front of brackets. -/
  | elements (inner : List Char)
  /-- Any other text. -/
  | other (cs : List Char)

/-- The form of a text that is no group, no intersection, and not marked. -/
def plainForm (cs : List Char) : Form :=
  match wordType? cs with
  | some t => .word t
  | none =>
    match genericParts? cs with
    | some (name, args) => .generic name args
    | none => if endsWithBrackets cs then .elements cs.dropLast.dropLast else .other cs

/-- The form of an alternative. -/
def form (cs : List Char) : Form :=
  match trim cs with
  | [] => .blank
  | c :: body =>
    if isWrapped (c :: body) then .group body.dropLast
    else if 1 < (splitOutside '&' (c :: body)).length then .intersection
    else if c = '?' then .marked body
    else plainForm (c :: body)

/-- The alternatives of an expression, without the question mark in front of it. -/
def alternativesOf (cs : List Char) : List (List Char) :=
  match trim cs with
  | '?' :: rest => splitOutside '|' rest
  | _ => splitOutside '|' cs

namespace Form

/-- The alternatives inside a form. Of the arguments of an array two are read at most. -/
def parts : Form → List (List Char)
  | group inner | elements inner => alternativesOf inner
  | marked rest => splitOutside '|' rest
  | generic name args =>
    if isArrayName name then ((splitOutside ',' args).take 2).flatMap alternativesOf else []
  | _ => []

/-- The name that a form gives: a keyword in lower case, or a name without backslashes in front.
Backslashes alone give no name, but with arguments they give an empty one. -/
def name? : Form → Option String
  | generic name _ =>
    if isArrayName name then none else some (String.ofList (Text.dropBackslashes name))
  | other cs =>
    if isKeyword (lowered cs) then some (lowered cs)
    else if Text.dropBackslashes cs = [] then none
    else some (String.ofList (Text.dropBackslashes cs))
  | _ => none

end Form

/-- The reader comes to the alternative when it reads the expression. -/
inductive Reached (cs : List Char) : List Char → Prop
  /-- An alternative of the expression itself. -/
  | outer {a : List Char} : a ∈ alternativesOf cs → Reached cs a
  /-- An alternative inside another one. -/
  | inner {a b : List Char} : Reached cs a → b ∈ (form a).parts → Reached cs b

/-! ### Reading by forms -/

/-- What is read from a form. -/
def Form.read : Form → Except Ty.Fault (Option Ty)
  | blank => .ok none
  | group inner => expression inner
  | intersection => .ok (some .mixed)
  | marked rest => optional rest
  | word t => .ok (some t)
  | generic name args =>
    if isArrayName name then (arrayArguments args).map some
    else (Ty.ofName (String.ofList (Text.dropBackslashes name)) false).map some
  | elements inner => (expression inner).map fun value => some (.array (value.getD .mixed) false)
  | other cs => wordOrName cs

/-- An alternative is read by its form. -/
theorem alternative_eq_read (cs : List Char) : alternative cs = (form cs).read := by
  cases htrim : trim cs with
  | nil => simp only [form, htrim, alternative_of_blank htrim, Form.read]
  | cons c body =>
    rw [alternative_eq htrim]
    simp only [form, htrim]
    -- the form is found by the tests of the reader, in their order
    split
    · rw [Form.read]
    split
    · rw [Form.read]
    split
    · rw [Form.read]
    unfold plainForm
    cases wordType? (c :: body) with
    | some t => simp only [Form.read]
    | none =>
      cases genericParts? (c :: body) with
      | some parts => simp only [Form.read]
      | none => cases endsWithBrackets (c :: body) <;> simp [Form.read]

/-- The pieces joined by the separator are the text. -/
theorem intercalate_pieces (sep : Char) (depth : Nat) (cs : List Char) :
    [sep].intercalate (pieces sep depth cs) = cs := by
  induction cs generalizing depth with
  | nil => rfl
  | cons c cs ih =>
    obtain ⟨p, ps, hps⟩ := List.exists_cons_of_ne_nil (pieces_ne_nil sep (depthAfter depth c) cs)
    have hcs := ih (depthAfter depth c)
    rw [hps] at hcs
    -- at a cut a new piece begins; any other character goes to the first piece
    by_cases hcut : c = sep ∧ depthAfter depth c = 0
    · obtain ⟨rfl, hzero⟩ := hcut
      have hpieces : pieces c depth (c :: cs) = [] :: p :: ps := by
        simp only [pieces, hzero, beq_self_eq_true, Bool.and_self, if_true]
        rw [← hzero, hps]
      rw [hpieces, List.intercalate_cons_cons, hcs]
      rfl
    · rw [pieces_cons_of_no_cut (not_and_or.mp hcut), hps, List.modifyHead_cons]
      cases ps with
      | nil =>
        rw [List.intercalate_singleton] at hcs ⊢
        rw [hcs]
      | cons q qs =>
        rw [List.intercalate_cons_cons] at hcs ⊢
        rw [← hcs]
        simp

/-- A text that is not cut is its only part. -/
theorem splitOutside_eq_of_one {sep : Char} {cs : List Char}
    (h : (splitOutside sep cs).length ≤ 1) : splitOutside sep cs = [trim cs] := by
  rw [length_splitOutside] at h
  have hjoin := intercalate_pieces sep 0 cs
  rw [splitOutside]
  obtain ⟨p, ps, hps⟩ := List.exists_cons_of_ne_nil (pieces_ne_nil sep 0 cs)
  have hnil : ps = [] := by
    rw [hps, List.length_cons] at h
    exact List.eq_nil_of_length_eq_zero (by omega)
  rw [hps, hnil, List.intercalate_singleton] at hjoin
  rw [hps, hnil, hjoin, List.map_singleton]

/-- Alternatives are read one by one and merged, also where there is only one. -/
theorem alternatives_eq_mergeFound (cs : List Char) :
    alternatives cs = ((splitOutside '|' cs).mapM alternative).map mergeFound := by
  rw [alternatives_eq]
  split_ifs with hmany
  · rfl
  · -- the only part of the text is the text without the blanks around it
    have hone : splitOutside '|' cs = [trim cs] := splitOutside_eq_of_one (by omega)
    rw [hone, List.mapM_cons, List.mapM_nil, alternative_congr (Text.trim_trim cs)]
    cases alternative cs with
    | error e => rfl
    | ok found => cases found <;> rfl

/-- Behind a question mark alternatives are read, and the flag is set. -/
theorem optional_eq_alternatives (cs : List Char) :
    optional cs = (alternatives cs).map fun t => t.map (·.withNullable true) := by
  by_cases hblank : trim cs = []
  · rw [optional_of_blank hblank, alternatives_of_blank hblank]
    rfl
  · exact optional_eq hblank

theorem expression_eq_alternatives {cs : List Char} (h : (trim cs).head? ≠ some '?') :
    expression cs = alternatives cs := by
  by_cases hblank : trim cs = []
  · rw [expression_of_blank hblank, alternatives_of_blank hblank]
  · exact expression_of_head_ne hblank h

theorem alternativesOf_of_mark {cs rest : List Char} (h : trim cs = '?' :: rest) :
    alternativesOf cs = splitOutside '|' rest := by
  simp only [alternativesOf, h]

theorem alternativesOf_of_head_ne {cs : List Char} (h : (trim cs).head? ≠ some '?') :
    alternativesOf cs = splitOutside '|' cs := by
  unfold alternativesOf
  split
  · next heq =>
    rw [heq] at h
    exact absurd rfl h
  · rfl

/-! ### The texts of forms -/

/-- How the text of a form is written, without blanks around it. -/
inductive Form.Spelled : Form → List Char → Prop
  | blank : Spelled .blank []
  | group {inner : List Char} : Spelled (.group inner) ('(' :: (inner ++ [')']))
  | intersection {m : List Char} : 1 < (splitOutside '&' m).length → Spelled .intersection m
  | marked {rest : List Char} : Spelled (.marked rest) ('?' :: rest)
  | word {t : Ty} {m : List Char} : wordType? m = some t → Spelled (.word t) m
  | generic {name args m : List Char} : (splitOutside '&' m).length ≤ 1 →
      genericParts? m = some (name, args) → Spelled (.generic name args) m
  | elements {inner : List Char} : Spelled (.elements inner) (inner ++ ['[', ']'])
  | other {m : List Char} : wordType? m = none → genericParts? m = none → Spelled (.other m) m

theorem spelled_plainForm {m : List Char} (hand : (splitOutside '&' m).length ≤ 1) :
    (plainForm m).Spelled m := by
  unfold plainForm
  cases hword : wordType? m with
  | some t => exact .word hword
  | none =>
    cases hparts : genericParts? m with
    | some parts => exact .generic hand hparts
    | none =>
      cases hbrackets : endsWithBrackets m with
      | true =>
        obtain ⟨inner, rfl⟩ := endsWithBrackets_iff.mp hbrackets
        simpa using Form.Spelled.elements
      | false => exact .other hword hparts

/-- The form of an alternative spells its text. -/
theorem spelled_form (a : List Char) : (form a).Spelled (trim a) := by
  cases htrim : trim a with
  | nil =>
    simp only [form, htrim]
    exact .blank
  | cons c body =>
    simp only [form, htrim]
    split
    · next hwrapped =>
      obtain ⟨inner, hinner⟩ := exists_of_isWrapped hwrapped
      obtain ⟨rfl, rfl⟩ := List.cons.inj hinner
      rw [List.dropLast_concat]
      exact .group
    split
    · next hmany => exact .intersection hmany
    split
    · next hmark =>
      rw [hmark]
      exact .marked
    · next hmany _ => exact spelled_plainForm (by omega)

theorem isInfix_trim (cs : List Char) : trim cs <:+: cs := by
  obtain ⟨a, b, -, -, h⟩ := Text.exists_eq_pad_trim cs
  exact ⟨a, b, by rw [List.append_assoc, ← h]⟩

theorem isInfix_intercalate (sep : List Char) {xs : List (List Char)} {x : List Char} (h : x ∈ xs) :
    x <:+: sep.intercalate xs := by
  induction xs with
  | nil => cases h
  | cons y ys ih =>
    cases ys with
    | nil =>
      rw [List.mem_singleton.mp h, List.intercalate_singleton]
    | cons z zs =>
      rw [List.intercalate_cons_cons]
      cases h with
      | head =>
        rw [List.append_assoc]
        exact (List.prefix_append x _).isInfix
      | tail _ h => exact (ih h).trans (List.suffix_append _ _).isInfix

/-- The parts of a text stand in it. -/
theorem isInfix_of_mem_splitOutside {sep : Char} {cs part : List Char}
    (h : part ∈ splitOutside sep cs) : part <:+: cs := by
  obtain ⟨piece, hpiece, rfl⟩ := List.mem_map.mp h
  have hjoined := isInfix_intercalate [sep] hpiece
  rw [intercalate_pieces] at hjoined
  exact (isInfix_trim piece).trans hjoined

theorem isInfix_of_mem_alternativesOf {cs a : List Char} (h : a ∈ alternativesOf cs) :
    a <:+: cs := by
  by_cases hmark : (trim cs).head? = some '?'
  · obtain ⟨rest, hrest⟩ := List.head?_eq_some_iff.mp hmark
    rw [alternativesOf_of_mark hrest] at h
    have htail : rest <:+: trim cs := hrest ▸ (List.suffix_cons '?' rest).isInfix
    exact (isInfix_of_mem_splitOutside h).trans (htail.trans (isInfix_trim cs))
  · rw [alternativesOf_of_head_ne hmark] at h
    exact isInfix_of_mem_splitOutside h

/-- What is inside a form stands inside its text, with at least one character around it. -/
theorem exists_of_mem_parts {a b : List Char} (h : b ∈ (form a).parts) :
    ∃ inner, b <:+: inner ∧ inner <:+: a ∧ inner.length < a.length := by
  have hinside : ∀ {l inner r : List Char}, trim a = l ++ inner ++ r → l ≠ [] ∨ r ≠ [] →
      inner <:+: a ∧ inner.length < a.length := by
    intro l inner r htrim hne
    have hlength : l.length + inner.length + r.length ≤ a.length := by
      simpa [htrim, Nat.add_assoc] using (isInfix_trim a).length_le
    have hpos : 0 < l.length ∨ 0 < r.length :=
      hne.imp List.length_pos_iff.mpr List.length_pos_iff.mpr
    exact ⟨List.IsInfix.trans ⟨l, r, htrim.symm⟩ (isInfix_trim a), by omega⟩
  have hspelled := spelled_form a
  generalize form a = f at h hspelled
  generalize trim a = m at hinside hspelled
  cases hspelled with
  | blank | intersection | word | other => cases h
  | @group inner =>
    exact ⟨inner, isInfix_of_mem_alternativesOf h, hinside (l := ['(']) (r := [')']) rfl (by simp)⟩
  | @marked rest =>
    refine ⟨rest, isInfix_of_mem_splitOutside h, hinside (l := ['?']) (r := []) ?_ (by simp)⟩
    rw [List.append_nil, List.singleton_append]
  | @elements inner =>
    exact ⟨inner, isInfix_of_mem_alternativesOf h,
      hinside (l := []) (r := ['[', ']']) rfl (by simp)⟩
  | @generic name args _ hone hparts =>
    obtain ⟨b, -, -, -, hm⟩ := genericParts?_eq_some.mp hparts
    simp only [Form.parts] at h
    split_ifs at h
    · obtain ⟨e, he, hb⟩ := List.mem_flatMap.mp h
      have hargs := isInfix_of_mem_splitOutside (List.mem_of_mem_take he)
      refine ⟨args, (isInfix_of_mem_alternativesOf hb).trans hargs,
        hinside (l := name ++ (b ++ ['<'])) (r := ['>']) ?_ (by simp)⟩
      rw [hm]
      simp
    · cases h

theorem trim_of_mem_splitOutside {sep : Char} {cs part : List Char}
    (h : part ∈ splitOutside sep cs) : trim part = part := by
  obtain ⟨piece, -, rfl⟩ := List.mem_map.mp h
  exact Text.trim_trim piece

/-- Alternatives have no blanks around them. -/
theorem trim_of_mem_alternativesOf {cs a : List Char} (h : a ∈ alternativesOf cs) : trim a = a := by
  unfold alternativesOf at h
  split at h <;> exact trim_of_mem_splitOutside h

theorem trim_of_mem_parts {f : Form} {b : List Char} (h : b ∈ f.parts) : trim b = b := by
  cases f with
  | blank | intersection | word t | other cs => cases h
  | group inner => exact trim_of_mem_alternativesOf h
  | elements inner => exact trim_of_mem_alternativesOf h
  | marked rest => exact trim_of_mem_splitOutside h
  | generic name args =>
    simp only [Form.parts] at h
    split_ifs at h
    · obtain ⟨e, -, hb⟩ := List.mem_flatMap.mp h
      exact trim_of_mem_alternativesOf hb
    · cases h

/-- What is reached has no blanks around it. -/
theorem Reached.trim_eq {cs a : List Char} (h : Reached cs a) : trim a = a := by
  cases h with
  | outer ha => exact trim_of_mem_alternativesOf ha
  | inner _ hb => exact trim_of_mem_parts hb

/-- What is reached is a part of the text. -/
theorem Reached.isInfix {cs a : List Char} (h : Reached cs a) : a <:+: cs := by
  induction h with
  | outer ha => exact isInfix_of_mem_alternativesOf ha
  | inner _ hb ih =>
    obtain ⟨inner, hinner, ha, -⟩ := exists_of_mem_parts hb
    exact hinner.trans (ha.trans ih)

/-! ### Names with arguments, and names alone -/

/-- The text is a name with arguments behind it, and not an intersection. -/
def HasArguments (name cs : List Char) : Prop :=
  (splitOutside '&' cs).length ≤ 1 ∧
    ∃ b args, Blank b ∧ cs = name ++ (b ++ '<' :: (args ++ ['>']))

/-- Behind the name in front of arguments there stands a blank or the bracket, and no brace. -/
theorem wordType?_of_genericParts? {cs : List Char} {p : List Char × List Char}
    (h : genericParts? cs = some p) : wordType? cs = none := by
  obtain ⟨b, hb, -, hname, rfl⟩ := genericParts?_eq_some.mp h
  cases b with
  | nil =>
    refine wordType?_eq_none (c := '<') ?_ (by decide)
    rw [firstSymbol?_append, firstSymbol?_of_forall hname, List.nil_append,
      firstSymbol?_cons (by decide), Option.none_or]
  | cons d b =>
    have hd : isBlank d = true := hb d List.mem_cons_self
    have hsymbol : isNameChar d = false := Bool.eq_false_iff.mpr fun hname => by
      rw [not_isBlank_of_isNameChar hname] at hd
      cases hd
    refine wordType?_eq_none (c := d) ?_ ?_
    · rw [firstSymbol?_append, firstSymbol?_of_forall hname, List.cons_append,
        firstSymbol?_cons hsymbol, Option.none_or]
    · rintro rfl
      exact absurd hd (by decide)

/-- A name with arguments is taken for one. -/
theorem form_eq_generic_iff {a name : List Char} (ha : trim a = a) :
    (∃ args, form a = .generic name args) ↔
      name ≠ [] ∧ (∀ c ∈ name, isNameChar c = true) ∧ HasArguments name a := by
  have hspelled := spelled_form a
  rw [ha] at hspelled
  constructor
  · rintro ⟨args, hform⟩
    rw [hform] at hspelled
    cases hspelled with
    | generic hone hparts =>
      obtain ⟨b, hb, hne, hname, hcs⟩ := genericParts?_eq_some.mp hparts
      exact ⟨hne, hname, hone, b, args, hb, hcs⟩
  · rintro ⟨hne, hname, hone, b, args, hb, hcs⟩
    have hparts : genericParts? a = some (name, args) :=
      genericParts?_eq_some.mpr ⟨b, hb, hne, hname, hcs⟩
    have hlast := getLast?_of_genericParts? hparts
    have hhead : ∀ c, isNameChar c = false → a.head? ≠ some c := by
      intro c hc hhead
      obtain ⟨d, tail, rfl⟩ := List.exists_cons_of_ne_nil hne
      rw [hcs, List.cons_append, List.head?_cons] at hhead
      rw [← Option.some.inj hhead, hname d List.mem_cons_self] at hc
      cases hc
    refine ⟨args, ?_⟩
    generalize form a = f at hspelled
    -- no other form begins and ends like a name with arguments
    cases hspelled with
    | blank => cases hlast
    | group => exact absurd rfl (hhead '(' (by decide))
    | intersection hmany => exact absurd hmany (by omega)
    | marked => exact absurd rfl (hhead '?' (by decide))
    | word hword => rw [wordType?_of_genericParts? hparts] at hword; cases hword
    | generic _ hparts' => rw [hparts] at hparts'; cases hparts'; rfl
    | elements => simp at hlast
    | other _ hnone => rw [hparts] at hnone; cases hnone

/-- A class name is taken as it stands. -/
theorem form_of_isClassName {w : List Char} (h : IsClassName w) : form w = .other w := by
  have hnested := nested_of_nameChars h.chars
  have hspelled := spelled_form w
  rw [trim_of_nested hnested] at hspelled
  generalize form w = f at hspelled
  -- each other form has a character in it that belongs to no name
  cases hspelled with
  | blank => exact absurd rfl h.ne_nil
  | group => exact absurd (h.chars '(' (by simp)) (by decide)
  | intersection hmany =>
    rw [splitOutside_eq_singleton (by decide) hnested (by decide)] at hmany
    exact absurd hmany (by simp)
  | marked => exact absurd (h.chars '?' (by simp)) (by decide)
  | word hword' => rw [h.wordType?_eq_none] at hword'; cases hword'
  | generic _ hparts =>
    have hlast := getLast?_of_genericParts? hparts
    exact absurd (h.chars '>' (List.mem_of_getLast? hlast)) (by decide)
  | elements => exact absurd (h.chars '[' (by simp)) (by decide)
  | other => rfl

/-- A text begins with its backslashes. -/
theorem exists_eq_slashes_append (cs : List Char) :
    ∃ slashes, (∀ c ∈ slashes, c = '\\') ∧ cs = slashes ++ Text.dropBackslashes cs := by
  refine ⟨cs.takeWhile (· == '\\'), fun c hc => ?_, List.takeWhile_append_dropWhile.symm⟩
  exact beq_iff_eq.mp (List.all_eq_true.mp List.all_takeWhile c hc)

theorem dropBackslashes_slashes_append {slashes : List Char} (h : ∀ c ∈ slashes, c = '\\')
    (cs : List Char) : Text.dropBackslashes (slashes ++ cs) = Text.dropBackslashes cs :=
  List.dropWhile_append_of_pos fun c hc => beq_iff_eq.mpr (h c hc)

end TypeFacts.TypeText
