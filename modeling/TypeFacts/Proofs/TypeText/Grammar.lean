import TypeFacts.Proofs.TypeText.Reading
import TypeFacts.Proofs.Ty.Merging

/-!
# The grammar of type expressions

`Denotes` is the grammar with its meaning: `Denotes s cs t` says that the text `cs` is a phrase of
the sort `s` and describes the type `t`. A primary is a word, a name, an array or another name with
arguments, or a group in parentheses; behind it any number of brackets `[]` may stand. Alternatives
are such phrases, with a question mark in front or joined to an intersection, and an expression
joins alternatives.

The reader counts brackets and slices texts, and never sees a derivation. Yet it finds the type of
every expression of the grammar (`Denotes.reads`, `parse_of_denotes`). For the induction over
derivations each sort of phrase has an invariant: its text is nested with only certain characters
outside of brackets, it is read with the right result, and the result is well formed
(`ReadsSuffixed`, `ReadsAlternative`, `ReadsExpression`). The last part is needed because a question
mark in front of the first alternative is read as one in front of the whole expression, and the two
agree on well-formed types (`Ty.merge_withNullable_cons`).
-/

namespace TypeFacts.TypeText

open Text (Blank isBlank trim trimLeft)

/-! ### Phrases and their meaning -/

/-- The sorts of phrases. -/
inductive Phrase where
  | primary
  /-- A primary with brackets behind it. -/
  | suffixed
  | alternative
  | expression

/-- The name of a class: word characters and backslashes, not backslashes alone, and as it is
written none of the words of the grammar. -/
structure IsClassName (cs : List Char) : Prop where
  chars : ∀ c ∈ cs, isNameChar c = true
  named : Text.dropBackslashes cs ≠ []
  notReserved : isReserved (String.ofList cs) = false

instance (cs : List Char) : Decidable (IsClassName cs) :=
  decidable_of_iff (cs.all isNameChar = true ∧ Text.dropBackslashes cs ≠ [] ∧
      isReserved (String.ofList cs) = false)
    ⟨fun h => ⟨List.all_eq_true.mp h.1, h.2.1, h.2.2⟩,
      fun h => ⟨List.all_eq_true.mpr h.chars, h.named, h.notReserved⟩⟩

/-- The type with the name that a class name stands for. -/
def nameType (cs : List Char) : Ty :=
  .named (String.ofList (Text.dropBackslashes cs)) false

/-- The texts of the grammar and the types they describe. -/
inductive Denotes : Phrase → List Char → Ty → Prop
  | scalar {cs : List Char} {k : ScalarKind} : scalarAlias? (lowered cs) = some k →
      Denotes .primary cs (.scalar k false)
  | keyword {cs : List Char} : isKeyword (lowered cs) = true →
      Denotes .primary cs (.named (lowered cs) false)
  | null {cs : List Char} : lowered cs = "null" → Denotes .primary cs .null
  | anyArray {cs : List Char} : isArrayWord (lowered cs) = true → Denotes .primary cs .anyArray
  | className {cs : List Char} : IsClassName cs → Denotes .primary cs (nameType cs)
  | array {w e : List Char} {t : Ty} : isArrayWord (lowered w) = true → Denotes .expression e t →
      Denotes .primary (w ++ '<' :: (e ++ ['>'])) (.array t false)
  | keyed {w e f : List Char} {k v : Ty} : isArrayWord (lowered w) = true →
      Denotes .expression e k → Denotes .expression f v →
      Denotes .primary (w ++ '<' :: (e ++ ',' :: (f ++ ['>']))) (.keyed k v false)
  | generic {w args : List Char} : IsClassName w → isArrayName w = false →
      Nested (fun _ => true) args → Denotes .primary (w ++ '<' :: (args ++ ['>'])) (nameType w)
  | group {e : List Char} {t : Ty} : Denotes .expression e t →
      Denotes .primary ('(' :: (e ++ [')'])) t
  | bare {cs : List Char} {t : Ty} : Denotes .primary cs t → Denotes .suffixed cs t
  | brackets {cs : List Char} {t : Ty} : Denotes .suffixed cs t →
      Denotes .suffixed (cs ++ ['[', ']']) (.array t false)
  | plain {cs : List Char} {t : Ty} : Denotes .suffixed cs t → Denotes .alternative cs t
  | optional {cs : List Char} {t : Ty} : Denotes .suffixed cs t →
      Denotes .alternative ('?' :: cs) (t.withNullable true)
  | intersection {ps : List (List Char × Ty)} : 2 ≤ ps.length →
      (∀ p ∈ ps, Denotes .suffixed p.1 p.2) →
      Denotes .alternative (['&'].intercalate (ps.map Prod.fst)) .mixed
  | alternatives {ps : List (List Char × Ty)} : ps ≠ [] →
      (∀ p ∈ ps, Denotes .alternative p.1 p.2) →
      Denotes .expression (['|'].intercalate (ps.map Prod.fst)) (.merge (ps.map Prod.snd))
  | nullable {ps : List (List Char × Ty)} : ps ≠ [] → (∀ p ∈ ps, Denotes .alternative p.1 p.2) →
      Denotes .expression ('?' :: ['|'].intercalate (ps.map Prod.fst))
        ((Ty.merge (ps.map Prod.snd)).withNullable true)
  /-- Blanks may stand around an alternative. -/
  | spacedAlternative {a cs b : List Char} {t : Ty} : Blank a → Blank b →
      Denotes .alternative cs t → Denotes .alternative (a ++ (cs ++ b)) t
  /-- Blanks may stand around an expression. -/
  | spaced {a cs b : List Char} {t : Ty} : Blank a → Blank b →
      Denotes .expression cs t → Denotes .expression (a ++ (cs ++ b)) t

/-- One alternative is an expression. -/
theorem Denotes.single {cs : List Char} {t : Ty} (h : Denotes .alternative cs t) :
    Denotes .expression cs t := by
  have hlist : ∀ p ∈ [(cs, t)], Denotes .alternative p.1 p.2 := fun p hp => by
    rw [List.mem_singleton.mp hp]
    exact h
  simpa [List.intercalate_singleton] using Denotes.alternatives (by simp) hlist

/-! ### The invariants of the phrases -/

/-- A phrase without blanks, question marks and joints outside of its brackets is read as `t`. -/
structure ReadsSuffixed (cs : List Char) (t : Ty) : Prop where
  nested : Nested isNameChar cs
  notShape : firstSymbol? cs ≠ some '\x7b'
  read : alternative cs = .ok (some t)
  wellFormed : t.WellFormed

/-- The characters of an alternative outside of its brackets. -/
def inAlternative (c : Char) : Bool :=
  isNameChar c || c == '?' || c == '&' || isBlank c

/-- An alternative is read as `t`, a question mark in front of it apart or not. -/
structure ReadsBehindMark (cs : List Char) (t : Ty) : Prop where
  nested : Nested inAlternative cs
  read : alternative cs = .ok (some t)
  wellFormed : t.WellFormed

/-- An alternative is read as `t`; where it begins with a question mark, what stands behind is read
as a type that is `t` up to the flag. -/
structure ReadsAlternative (cs : List Char) (t : Ty) : Prop extends ReadsBehindMark cs t where
  mark : (trim cs).head? = some '?' → ∃ a ds u, Blank a ∧ cs = a ++ '?' :: ds ∧
    ReadsBehindMark ds u ∧ t = u.withNullable true

/-- The characters of an expression outside of its brackets. -/
def inExpression (c : Char) : Bool :=
  inAlternative c || c == '|'

/-- An expression is read as `t`. -/
structure ReadsExpression (cs : List Char) (t : Ty) : Prop where
  nested : Nested inExpression cs
  read : expression cs = .ok (some t)
  wellFormed : t.WellFormed

/-! ### Primaries and brackets -/

section Suffixed

variable {cs w : List Char} {t : Ty}

theorem ReadsSuffixed.ne_nil (h : ReadsSuffixed cs t) : cs ≠ [] := fun heq =>
  trim_ne_nil_of_alternative h.read (by rw [heq]; rfl)

/-- A row of name characters with the right reading. -/
theorem ReadsSuffixed.of_nameChars (h : ∀ c ∈ cs, isNameChar c = true)
    (hread : alternative cs = .ok (some t)) (ht : t.WellFormed) : ReadsSuffixed cs t where
  nested := nested_of_nameChars h
  notShape := by rw [firstSymbol?_of_forall h]; simp
  read := hread
  wellFormed := ht

/-- The word of the grammar that stands for a type by itself. -/
theorem ReadsSuffixed.of_wordType? (hres : isReserved (String.ofList cs) = true)
    (hword : wordType? cs = some t) (ht : t.WellFormed) : ReadsSuffixed cs t := by
  obtain ⟨hne, hchars⟩ := nameChars_of_isReserved hres
  refine .of_nameChars hchars ?_ ht
  rw [alternative_of_nameChars hne hchars, hword]

theorem ofName_of_ne_nil (h : cs ≠ []) :
    Ty.ofName (String.ofList cs) false = .ok (.named (String.ofList cs) false) := by
  have hne : (String.ofList cs).isEmpty = false := by
    simpa [String.isEmpty_iff, String.ext_iff] using h
  simp [Ty.ofName, hne]

private theorem keywordTypes_spec : ∀ w ∈ keywordTypes, scalarAlias? w = none ∧ w ≠ "null" ∧
    isArrayWord w = false ∧ isShape w = false ∧ w ≠ "" := by
  decide +kernel

/-- A keyword is read as the type of its name, in lower case. -/
theorem ReadsSuffixed.keyword (h : isKeyword (lowered cs) = true) :
    ReadsSuffixed cs (.named (lowered cs) false) := by
  obtain ⟨hscalar, hnull, harray, hshape, hempty⟩ :=
    keywordTypes_spec _ (List.contains_iff_mem.mp h)
  obtain ⟨hne, hchars⟩ : cs ≠ [] ∧ ∀ c ∈ cs, isNameChar c = true :=
    nameChars_of_isReserved (by rw [isReserved_ofList, h]; simp)
  have hword : wordType? cs = none := by
    rw [wordType?_eq, hscalar]
    simp [hnull, harray, hshape]
  have hname : Ty.ofName (lowered cs) false = .ok (.named (lowered cs) false) := by
    simp [Ty.ofName, hempty]
  refine .of_nameChars hchars ?_ hempty
  rw [alternative_of_nameChars hne hchars, hword]
  change wordOrName cs = _
  rw [wordOrName, ← lowered, if_pos h, hname]
  rfl

/-- A text that is no keyword is taken as a name without backslashes in front. -/
theorem wordOrName_of_not_isKeyword {cs : List Char} (h : isKeyword (lowered cs) = false) :
    wordOrName cs = .ok (if Text.dropBackslashes cs = [] then none else some (nameType cs)) := by
  rw [wordOrName, ← lowered, if_neg (by simp [h])]
  cases hdrop : Text.dropBackslashes cs with
  | nil => rfl
  | cons c name =>
    change Except.map some (Ty.ofName (String.ofList (c :: name)) false) = _
    rw [ofName_of_ne_nil (List.cons_ne_nil c name), nameType, hdrop]
    rfl

/-- The name of a class is not empty. -/
theorem IsClassName.ne_nil (h : IsClassName cs) : cs ≠ [] := fun heq =>
  h.named (by rw [heq]; rfl)

/-- The name of a class is no word of the grammar. -/
theorem IsClassName.wordType?_eq_none (h : IsClassName cs) : wordType? cs = none := by
  refine wordType?_of_not_isReserved h.notReserved (Bool.eq_false_iff.mpr fun hshape => ?_)
  have hsymbol := firstSymbol?_of_isShape hshape
  rw [firstSymbol?_of_forall h.chars] at hsymbol
  cases hsymbol

theorem IsClassName.not_isKeyword (h : IsClassName cs) : isKeyword (lowered cs) = false := by
  have hres := h.notReserved
  rw [isReserved_ofList] at hres
  simp only [Bool.or_eq_false_iff] at hres
  exact hres.1.2

/-- The name of a class is read as its type. -/
theorem ReadsSuffixed.className (h : IsClassName cs) : ReadsSuffixed cs (nameType cs) := by
  refine .of_nameChars h.chars ?_ (by simpa [nameType, Ty.WellFormed, String.ext_iff] using h.named)
  rw [alternative_of_nameChars h.ne_nil h.chars, h.wordType?_eq_none]
  exact (wordOrName_of_not_isKeyword h.not_isKeyword).trans (by rw [if_neg h.named])

/-- A name with arguments in angle brackets. -/
theorem ReadsSuffixed.generic {args : List Char} {p : Char → Bool} (hne : w ≠ [])
    (hw : ∀ c ∈ w, isNameChar c = true) (hargs : Nested p args)
    (hread : (if isArrayName w then (arrayArguments args).map some
      else (Ty.ofName (String.ofList (Text.dropBackslashes w)) false).map some) = .ok (some t))
    (ht : t.WellFormed) : ReadsSuffixed (w ++ '<' :: (args ++ ['>'])) t where
  nested := (nested_of_nameChars hw).append (.bracketed rfl hargs)
  notShape := by
    rw [firstSymbol?_append, firstSymbol?_of_forall hw, firstSymbol?_cons (by decide)]
    simp
  read := (alternative_generic hne hw hargs).trans hread
  wellFormed := ht

/-- A word for arrays as the name in front of arguments. -/
theorem isArrayName_of_isArrayWord (h : isArrayWord (lowered w) = true) :
    w ≠ [] ∧ (∀ c ∈ w, isNameChar c = true) ∧ isArrayName w = true := by
  have hres : isReserved (String.ofList w) = true := by rw [isReserved_ofList, h]; simp
  obtain ⟨hne, hchars⟩ := nameChars_of_isReserved hres
  have hdrop : Text.dropBackslashes w = w := Text.dropBackslashes_eq_self fun hhead =>
    not_mem_backslash_of_isReserved hres (List.mem_of_mem_head? hhead)
  refine ⟨hne, hchars, ?_⟩
  rw [isArrayName, hdrop]
  exact h

/-- One argument of an array is the type of its values. -/
theorem arrayArguments_single {args e : List Char} (h : splitOutside ',' args = [e]) :
    arrayArguments args = (expression e).map fun v => .array (v.getD .mixed) false := by
  rw [arrayArguments]
  split
  · next heq => rw [h] at heq; cases heq
  · next heq => rw [h] at heq; cases heq; rfl
  · next heq => rw [h] at heq; cases heq

/-- Only a key and a value count, whatever stands behind them. -/
theorem arrayArguments_pair {args e f : List Char} {rest : List (List Char)}
    (h : splitOutside ',' args = e :: f :: rest) : arrayArguments args = do
      let k ← expression e
      let v ← expression f
      return .arrayOf k (v.getD .mixed) false := by
  rw [arrayArguments]
  split
  · next heq => rw [h] at heq; cases heq; rfl
  · next heq => rw [h] at heq; cases heq
  · next heq => rw [h] at heq; cases heq

/-- An expression is read without the blanks around it. -/
theorem ReadsExpression.read_trim {e : List Char} (h : ReadsExpression e t) :
    expression (trim e) = .ok (some t) :=
  (expression_congr (Text.trim_trim e)).trans h.read

/-- An array word with one argument is read as an array of it. -/
theorem ReadsSuffixed.array {e : List Char} (hw : isArrayWord (lowered w) = true)
    (he : ReadsExpression e t) : ReadsSuffixed (w ++ '<' :: (e ++ ['>'])) (.array t false) := by
  obtain ⟨hne, hchars, hname⟩ := isArrayName_of_isArrayWord hw
  have hsplit : splitOutside ',' e = [trim e] :=
    splitOutside_eq_singleton (by decide) he.nested (by decide)
  refine .generic hne hchars he.nested ?_ he.wellFormed
  rw [if_pos hname, arrayArguments_single hsplit, he.read_trim]
  rfl

/-- An array word with two arguments is read as an array with keys. -/
theorem ReadsSuffixed.keyed {e f : List Char} {k v : Ty} (hw : isArrayWord (lowered w) = true)
    (he : ReadsExpression e k) (hf : ReadsExpression f v) :
    ReadsSuffixed (w ++ '<' :: (e ++ ',' :: (f ++ ['>']))) (.keyed k v false) := by
  obtain ⟨hne, hchars, hname⟩ := isArrayName_of_isArrayWord hw
  have htexts : e ++ ',' :: f = [','].intercalate [e, f] := by
    simp [List.intercalate_cons_cons, List.intercalate_singleton]
  have hsplit : splitOutside ',' (e ++ ',' :: f) = [trim e, trim f] := by
    rw [htexts]
    refine splitOutside_intercalate (p := inExpression) (by decide) (by decide) (by decide)
      (by simp) ?_
    intro t ht
    rcases List.mem_pair.mp ht with rfl | rfl
    · exact he.nested
    · exact hf.nested
  have hargs : Nested (fun _ => true) (e ++ ',' :: f) :=
    (he.nested.mono fun _ _ => rfl).append
      (.char (by decide) (by decide) rfl (hf.nested.mono fun _ _ => rfl))
  have hassoc :
      w ++ '<' :: (e ++ ',' :: (f ++ ['>'])) = w ++ '<' :: ((e ++ ',' :: f) ++ ['>']) := by
    simp
  rw [hassoc]
  refine .generic hne hchars hargs ?_ ⟨he.wellFormed, hf.wellFormed⟩
  rw [if_pos hname, arrayArguments_pair hsplit, he.read_trim, hf.read_trim]
  rfl

/-- A group is read like the expression in it. -/
theorem ReadsSuffixed.group {e : List Char} (he : ReadsExpression e t) :
    ReadsSuffixed ('(' :: (e ++ [')'])) t where
  nested := .bracketed rfl he.nested
  notShape := by rw [firstSymbol?_cons (by decide)]; simp
  read := (alternative_group he.nested).trans he.read
  wellFormed := he.wellFormed

/-- Brackets behind a type make an array of it. -/
theorem ReadsSuffixed.brackets (h : ReadsSuffixed cs t) :
    ReadsSuffixed (cs ++ ['[', ']']) (.array t false) where
  nested := h.nested.append (@Nested.bracketed isNameChar isNameChar [] '[' ']' rfl .nil)
  notShape := by
    rw [firstSymbol?_append, show firstSymbol? ['[', ']'] = some '[' by decide]
    cases hfirst : firstSymbol? cs with
    | none => simp
    | some c => simpa [hfirst] using h.notShape
  read := alternative_brackets h.nested h.notShape h.read
  wellFormed := h.wellFormed

end Suffixed

/-! ### Alternatives and expressions -/

section Alternatives

variable {cs ds : List Char} {t u : Ty}

theorem ReadsSuffixed.behindMark (h : ReadsSuffixed cs t) : ReadsBehindMark cs t where
  nested := h.nested.mono fun c hc => by simp [inAlternative, hc]
  read := h.read
  wellFormed := h.wellFormed

/-- A type without marks is an alternative. -/
theorem ReadsSuffixed.alternative (h : ReadsSuffixed cs t) : ReadsAlternative cs t where
  toReadsBehindMark := h.behindMark
  mark := fun hmark => by
    rw [trim_of_nested h.nested] at hmark
    exact absurd hmark (head_ne_question h.nested)

/-- With a question mark in front null is allowed. -/
theorem ReadsSuffixed.optional (h : ReadsSuffixed cs t) :
    ReadsAlternative ('?' :: cs) (t.withNullable true) where
  nested := .char (by decide) (by decide) (by decide) h.behindMark.nested
  read := by
    have hnested : Nested (fun c => isNameChar c || c == '?') ('?' :: cs) :=
      .char (by decide) (by decide) (by decide) (h.nested.mono fun c hc => by simp [hc])
    have htrim : trim ('?' :: cs) = '?' :: cs :=
      hnested.trim_eq_self (not_isBlank_of_isNameChar_or (by decide))
    have hand : splitOutside '&' ('?' :: cs) = [trim ('?' :: cs)] :=
      splitOutside_eq_singleton (by decide) hnested (by decide)
    have hbar : splitOutside '|' cs = [trim cs] :=
      splitOutside_eq_singleton (by decide) h.nested (by decide)
    rw [alternative_eq htrim, not_isWrapped_of_head (by simp), hand,
      optional_eq (trim_ne_nil_of_alternative h.read), alternatives_eq, hbar]
    simp [h.read, Except.map]
  wellFormed := Ty.wellFormed_withNullable.mpr h.wellFormed
  mark := fun _ => ⟨[], cs, t, .nil, rfl, h.behindMark, rfl⟩

/-- Blanks around an alternative do not matter. -/
theorem ReadsAlternative.spaced {a b : List Char} (ha : Blank a) (hb : Blank b)
    (h : ReadsAlternative cs t) : ReadsAlternative (a ++ (cs ++ b)) t where
  nested := (Nested.of_blank ha fun c hc => by simp [inAlternative, hc]).append
    (h.nested.append (Nested.of_blank hb fun c hc => by simp [inAlternative, hc]))
  read := (alternative_congr (Text.trim_pad ha hb cs)).trans h.read
  wellFormed := h.wellFormed
  mark := fun hmark => by
    rw [Text.trim_pad ha hb] at hmark
    obtain ⟨a', ds, u, ha', rfl, hds, rfl⟩ := h.mark hmark
    refine ⟨a ++ a', ds ++ b, u, ha.append ha', by simp, ?_, rfl⟩
    exact {
      nested := hds.nested.append (Nested.of_blank hb fun c hc => by simp [inAlternative, hc])
      read := (alternative_congr (Text.trim_append_blank hb ds)).trans hds.read
      wellFormed := hds.wellFormed }

/-- An intersection is read as the type of all values. -/
theorem ReadsAlternative.intersection {ps : List (List Char × Ty)} (hlen : 2 ≤ ps.length)
    (h : ∀ p ∈ ps, ReadsSuffixed p.1 p.2) :
    ReadsAlternative (['&'].intercalate (ps.map Prod.fst)) .mixed := by
  have htexts : ∀ text ∈ ps.map Prod.fst, Nested isNameChar text := by
    intro text htext
    obtain ⟨p, hp, rfl⟩ := List.mem_map.mp htext
    exact (h p hp).nested
  have hsplit :
      splitOutside '&' (['&'].intercalate (ps.map Prod.fst)) = (ps.map Prod.fst).map trim :=
    splitOutside_intercalate (by decide) (by decide) (by decide)
      (List.ne_nil_of_length_pos (by simp; omega)) htexts
  have hnested : Nested (fun c => isNameChar c || c == '&') (['&'].intercalate (ps.map Prod.fst)) :=
    Nested.intercalate (by decide) (by decide) (by decide) fun text htext =>
      (htexts text htext).mono fun c hc => by simp [hc]
  have htrim := hnested.trim_eq_self (not_isBlank_of_isNameChar_or (by decide))
  have hmark : (['&'].intercalate (ps.map Prod.fst)).head? ≠ some '?' := fun heq =>
    absurd (hnested.head '?' heq) (by decide)
  -- with two parts or more, the first of them has something behind it, so the whole is no group
  have hwrap : isWrapped (['&'].intercalate (ps.map Prod.fst)) = false ∧
      ['&'].intercalate (ps.map Prod.fst) ≠ [] := by
    match ps, hlen, h with
    | p :: q :: ps, _, h =>
      rw [List.map_cons, List.map_cons, List.intercalate_cons_cons, List.append_assoc]
      have hp := h p List.mem_cons_self
      exact ⟨not_isWrapped_append hp.nested hp.ne_nil (by simp), by simp⟩
  obtain ⟨hwrap, hne⟩ := hwrap
  refine ⟨⟨hnested.mono fun c hc => ?_, ?_, Ty.wellFormed_mixed⟩, fun hq => ?_⟩
  · rcases Bool.or_eq_true _ _ ▸ hc with hname | hand
    · simp [inAlternative, hname]
    · simp [inAlternative, hand]
  · obtain ⟨c, body, hcs⟩ := List.exists_cons_of_ne_nil hne
    rw [hcs] at htrim hwrap hsplit ⊢
    rw [alternative_eq htrim, hwrap, hsplit]
    have hmany : 1 < ps.length := hlen
    simp [hmany]
  · rw [htrim] at hq
    exact absurd hq hmark

/-- A check that all members of a list pass gives the list of results. -/
theorem mapM_map_ok {α β γ ε : Type} {f : β → Except ε γ} {g : α → β} {k : α → γ} :
    ∀ {xs : List α}, (∀ x ∈ xs, f (g x) = .ok (k x)) → (xs.map g).mapM f = .ok (xs.map k)
  | [], _ => rfl
  | x :: xs, h => by
    rw [List.map_cons, List.mapM_cons, h x List.mem_cons_self,
      mapM_map_ok fun y hy => h y (List.mem_cons_of_mem x hy)]
    rfl

/-- Alternatives joined by bars are read one by one and merged. -/
theorem alternatives_intercalate {ps : List (List Char × Ty)} (hne : ps ≠ [])
    (h : ∀ p ∈ ps, ReadsBehindMark p.1 p.2) :
    alternatives (['|'].intercalate (ps.map Prod.fst)) = .ok (some (.merge (ps.map Prod.snd))) := by
  have hsplit : splitOutside '|' (['|'].intercalate (ps.map Prod.fst))
      = ps.map fun p => trim p.1 := by
    rw [splitOutside_intercalate (p := inAlternative) (by decide) (by decide) (by decide)
      (by simpa using hne), List.map_map]
    · rfl
    · intro text htext
      obtain ⟨p, hp, rfl⟩ := List.mem_map.mp htext
      exact (h p hp).nested
  have hread : ∀ p ∈ ps, TypeText.alternative (trim p.1) = .ok (some p.2) := fun p hp =>
    (alternative_congr (Text.trim_trim p.1)).trans (h p hp).read
  rw [alternatives_eq, hsplit]
  match ps, hne, h, hread with
  | [p], _, h, _ => simpa [List.intercalate_singleton] using (h p List.mem_cons_self).read
  | p :: q :: ps, _, _, hread =>
    rw [if_pos (by simp), mapM_map_ok hread]
    simp [Except.map, mergeFound]

theorem intercalate_append_cons (sep a b : List Char) (texts : List (List Char)) :
    sep.intercalate ((a ++ b) :: texts) = a ++ sep.intercalate (b :: texts) := by
  cases texts with
  | nil => simp [List.intercalate_singleton]
  | cons t ts => simp [List.intercalate_cons_cons]

/-- Texts joined by bars begin as the first of them does. -/
theorem head?_trim_intercalate {sep text : List Char} {texts : List (List Char)}
    (h : trim text ≠ []) : (trim (sep.intercalate (text :: texts))).head? = (trim text).head? := by
  rw [← List.append_nil text, intercalate_append_cons, List.append_nil, Text.head?_trim,
    Text.head?_trim, List.find?_append]
  rw [← List.isSome_head?, Text.head?_trim] at h
  exact Option.or_of_isSome h

/-- Alternatives between bars keep their brackets closed. -/
theorem nested_alternatives {ps : List (List Char × Ty)} (h : ∀ p ∈ ps, ReadsAlternative p.1 p.2) :
    Nested inExpression (['|'].intercalate (ps.map Prod.fst)) := by
  refine Nested.intercalate (by decide) (by decide) (by decide) fun text htext => ?_
  obtain ⟨p, hp, rfl⟩ := List.mem_map.mp htext
  exact (h p hp).nested.mono fun c hc => by simp [inExpression, hc]

/-- Alternatives between bars are read as what they merge to. -/
theorem ReadsExpression.alternatives {ps : List (List Char × Ty)} (hne : ps ≠ [])
    (h : ∀ p ∈ ps, ReadsAlternative p.1 p.2) :
    ReadsExpression (['|'].intercalate (ps.map Prod.fst)) (.merge (ps.map Prod.snd)) where
  nested := nested_alternatives h
  read := by
    have hread := alternatives_intercalate hne fun p hp => (h p hp).toReadsBehindMark
    by_cases hmark : (trim (['|'].intercalate (ps.map Prod.fst))).head? = some '?'
    · -- the question mark in front of the first alternative is taken for one of the whole
      match ps, hne, h with
      | (text, t) :: ps, _, h =>
        have hfirst := h (text, t) List.mem_cons_self
        rw [List.map_cons, head?_trim_intercalate (trim_ne_nil_of_alternative hfirst.read)] at hmark
        obtain ⟨a, ds, u, ha, rfl, hds, rfl⟩ := hfirst.mark hmark
        have hrest := alternatives_intercalate (List.cons_ne_nil (ds, u) ps) fun p hp => by
          rcases List.mem_cons.mp hp with rfl | hp
          · exact hds
          · exact (h p (List.mem_cons_of_mem _ hp)).toReadsBehindMark
        have hmarked : ['|'].intercalate ((a ++ '?' :: ds) :: ps.map Prod.fst)
            = a ++ '?' :: ['|'].intercalate (ds :: ps.map Prod.fst) := by
          rw [intercalate_append_cons]
          exact congrArg (a ++ ·) (intercalate_append_cons ['|'] ['?'] ds _)
        simp only [List.map_cons] at hrest ⊢
        rw [hmarked, expression_question ha (trim_ne_nil_of_alternatives hrest), hrest,
          Ty.merge_withNullable_cons hds.wellFormed]
        rfl
    · rw [expression_of_head_ne (trim_ne_nil_of_alternatives hread) hmark, hread]
  wellFormed := Ty.merge_wellFormed fun t ht => by
    obtain ⟨p, hp, rfl⟩ := List.mem_map.mp ht
    exact (h p hp).wellFormed

/-- With a question mark in front they allow null together. -/
theorem ReadsExpression.nullable {ps : List (List Char × Ty)} (hne : ps ≠ [])
    (h : ∀ p ∈ ps, ReadsAlternative p.1 p.2) :
    ReadsExpression ('?' :: ['|'].intercalate (ps.map Prod.fst))
      ((Ty.merge (ps.map Prod.snd)).withNullable true) where
  nested := .char (by decide) (by decide) (by decide) (nested_alternatives h)
  read := by
    have hread := alternatives_intercalate hne fun p hp => (h p hp).toReadsBehindMark
    rw [← List.nil_append ('?' :: _), expression_question .nil (trim_ne_nil_of_alternatives hread),
      hread]
    rfl
  wellFormed := Ty.wellFormed_withNullable.mpr <| Ty.merge_wellFormed fun t ht => by
    obtain ⟨p, hp, rfl⟩ := List.mem_map.mp ht
    exact (h p hp).wellFormed

/-- Blanks around an expression do not matter. -/
theorem ReadsExpression.spaced {a b : List Char} (ha : Blank a) (hb : Blank b)
    (h : ReadsExpression cs t) : ReadsExpression (a ++ (cs ++ b)) t where
  nested := (Nested.of_blank ha fun c hc => by simp [inExpression, inAlternative, hc]).append
    (h.nested.append (Nested.of_blank hb fun c hc => by simp [inExpression, inAlternative, hc]))
  read := (expression_congr (Text.trim_pad ha hb cs)).trans h.read
  wellFormed := h.wellFormed

end Alternatives

/-! ### Every phrase is read as it is meant -/

/-- What the reader makes of a phrase of each sort. -/
def Phrase.Reads : Phrase → List Char → Ty → Prop
  | .primary | .suffixed => ReadsSuffixed
  | .alternative => ReadsAlternative
  | .expression => ReadsExpression

/-- Each phrase is read as it is meant, by induction on how it is built. -/
theorem Denotes.reads {s : Phrase} {cs : List Char} {t : Ty} (h : Denotes s cs t) :
    s.Reads cs t := by
  -- the induction is on derivations; the invariant of each sort holds what the sorts above need
  induction h with
  | @scalar cs k hk =>
    refine .of_wordType? (by rw [isReserved_ofList, hk]; simp) (by rw [wordType?_eq, hk]) ?_
    exact trivial
  | keyword h => exact .keyword h
  | @null cs h =>
    exact .of_wordType? (by rw [isReserved_ofList, h]; simp) (by rw [wordType?_eq, h]; rfl)
      Ty.wellFormed_null
  | @anyArray cs h =>
    refine .of_wordType? (by rw [isReserved_ofList, h]; simp) ?_ Ty.wellFormed_anyArray
    rcases Bool.or_eq_true _ _ ▸ h with h | h
    all_goals rw [wordType?_eq, beq_iff_eq.mp h]; rfl
  | className h => exact .className h
  | array hw _ ih => exact .array hw ih
  | keyed hw _ _ ihk ihv => exact .keyed hw ihk ihv
  | @generic w args hw hname hargs =>
    have hne : w ≠ [] := fun heq => hw.named (by rw [heq]; rfl)
    refine .generic hne hw.chars hargs ?_ (ReadsSuffixed.className hw).wellFormed
    rw [hname, ofName_of_ne_nil hw.named]
    rfl
  | group _ ih => exact .group ih
  | bare _ ih => exact ih
  | brackets _ ih => exact .brackets ih
  | plain _ ih => exact ih.alternative
  | optional _ ih => exact ih.optional
  | intersection hlen _ ih => exact .intersection hlen ih
  | alternatives hne _ ih => exact .alternatives hne ih
  | nullable hne _ ih => exact .nullable hne ih
  | spacedAlternative ha hb _ ih => exact .spaced ha hb ih
  | spaced ha hb _ ih => exact .spaced ha hb ih

theorem Denotes.expression_eq {cs : List Char} {t : Ty} (h : Denotes .expression cs t) :
    TypeText.expression cs = .ok (some t) :=
  ReadsExpression.read h.reads

/-- The reader finds the type that an expression of the grammar describes. -/
theorem parse_of_denotes {text : String} {t : Ty} (h : Denotes .expression text.toList t) :
    parse text = .ok (some t) :=
  h.expression_eq

/-- Arrays with keys, an intersection and null, with a question mark in front of it all. -/
theorem parse_of_denotes_nested :
    Denotes .expression "?array<String, \\App\\User[]>|(A&B) | Null".toList
      (.union [.mixed, .keyed (.scalar .string false)
        (.array (.named "App\\User" false) false) false] true) ∧
    parse "?array<String, \\App\\User[]>|(A&B) | Null"
      = .ok (some (.union [.mixed, .keyed (.scalar .string false)
        (.array (.named "App\\User" false) false) false] true)) := by
  have hkey : Denotes .expression "String".toList (.scalar .string false) :=
    .single (.plain (.bare (.scalar (by decide))))
  have huser : IsClassName "\\App\\User".toList := by decide
  have hvalue : Denotes .expression " \\App\\User[]".toList
      (.array (.named "App\\User" false) false) :=
    @Denotes.spaced [' '] "\\App\\User[]".toList [] _ (by decide) .nil
      (.single (.plain (.brackets (.bare (.className huser)))))
  have harray : Denotes .alternative "array<String, \\App\\User[]>".toList
      (.keyed (.scalar .string false) (.array (.named "App\\User" false) false) false) :=
    .plain (.bare (@Denotes.keyed "array".toList _ _ _ _ (by decide) hkey hvalue))
  have hgroup : Denotes .alternative "(A&B) ".toList .mixed := by
    refine @Denotes.spacedAlternative [] "(A&B)".toList [' '] _ .nil (by decide)
      (.plain (.bare (@Denotes.group "A&B".toList _ (.single ?_))))
    refine @Denotes.intersection [("A".toList, .named "A" false), ("B".toList, .named "B" false)]
      (by decide) fun p hp => ?_
    have ha : IsClassName "A".toList := by decide
    have hb : IsClassName "B".toList := by decide
    rcases List.mem_pair.mp hp with rfl | rfl
    · exact .bare (.className ha)
    · exact .bare (.className hb)
  have hnull : Denotes .alternative " Null".toList .null :=
    @Denotes.spacedAlternative [' '] "Null".toList [] _ (by decide) .nil
      (.plain (.bare (.null (by decide))))
  have hall := @Denotes.nullable
    [("array<String, \\App\\User[]>".toList, _), ("(A&B) ".toList, _), (" Null".toList, _)]
    (by simp)
    (by simp only [List.forall_mem_cons]; exact ⟨harray, hgroup, hnull, by simp⟩)
  exact ⟨hall, parse_of_denotes hall⟩
end TypeFacts.TypeText
