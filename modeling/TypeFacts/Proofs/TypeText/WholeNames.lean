import Mathlib.Data.Finset.Max
import TypeFacts.Proofs.TypeText.Absolute
import TypeFacts.Proofs.TypeText.Names

/-!
# Texts that are qualified as one name

A type text has its names resolved one by one (`resolve`). Where a text is expected to be a class
name, the whole text is qualified as if it were one, and read later. Both give the same type
(`ReadsAsResolved`) of a class name, unless its full name is a word of the grammar
(`readsAsResolved_className`).

Of alternatives joined by bars only the first gets the namespace in front. So the two ways agree
exactly if there is no namespace, if the text is a word such as `self`, or if the first alternative
is a class name and the others have no class names in them (`readsAsResolved_alternatives`). That
they differ otherwise is seen from the names in the two types (`only_first_named`): the longest
class name behind the first alternative would have to be the first alternative, and the shortest one
would have to be longer.
-/

namespace TypeFacts.TypeText

open Text (trim)

/-- A name with a backslash is no word of the grammar. -/
theorem not_isReserved_of_backslash {s : String} (h : '\\' ∈ s.toList) : isReserved s = false :=
  Bool.eq_false_iff.mpr fun hres =>
    not_mem_backslash_of_isReserved (by rwa [String.ofList_toList]) h

/-- A word of the grammar is a path of one part. -/
theorem isPath_of_isReserved {s : String} (h : isReserved s = true) : IsPath s := by
  have hlist : isReserved (String.ofList s.toList) = true := by rwa [String.ofList_toList]
  obtain ⟨hne, hchars⟩ := nameChars_of_isReserved hlist
  exact ⟨hchars, fun heq => hne (by rw [heq]; rfl), fun hhead =>
    not_mem_backslash_of_isReserved hlist (List.mem_of_mem_head? hhead)⟩

/-- The text qualified as one name is read as the type that the text resolves to. -/
def ReadsAsResolved (scope : Scope) (s : String) : Prop :=
  parse (scope.qualify s) = resolve scope s

/-! ### Class names -/

section ClassName

variable {scope : Scope} {s : String}

/-- Without the backslashes in front a class name is a path. -/
theorem IsClassName.isPath {cs : List Char} (h : IsClassName cs) :
    IsPath (String.ofList (Text.dropBackslashes cs)) := by
  refine ⟨fun c hc => ?_, by simpa [String.ext_iff] using h.named, fun heq => ?_⟩
  · rw [String.toList_ofList] at hc
    exact h.chars c ((List.dropWhile_sublist _).subset hc)
  · rw [String.toList_ofList] at heq
    have hdropped := List.head?_dropWhile_not (· == '\\') cs
    rw [Text.dropBackslashes] at heq
    simp [heq] at hdropped

/-- A type without marks is read by itself. -/
theorem Denotes.parse_eq {t : Ty} (h : Denotes .suffixed s.toList t) : parse s = .ok (some t) :=
  (Denotes.single (.plain h)).expression_eq

private theorem asciiLower_keywordTypes : ∀ w ∈ keywordTypes, Text.asciiLower w = w := by
  decide

/-- A path is read as the type of this name, unless it is a word of the grammar other than a keyword
in lower case. -/
theorem IsPath.parse_eq_iff (h : IsPath s) : parse s = .ok (some (.named s false)) ↔
    (isReserved s = true → isKeyword s = true) := by
  have hlower : lowered s.toList = Text.asciiLower s := lowered_toList s
  constructor
  · intro hparse hres
    have hread {t : Ty} (ht : Denotes .primary s.toList t) : t = .named s false :=
      Option.some.inj (Except.ok.inj ((Denotes.bare ht).parse_eq.symm.trans hparse))
    simp only [isReserved, ← hlower, Bool.or_eq_true, beq_iff_eq] at hres
    rcases hres with ((hscalar | harray) | hkey) | hnull
    · obtain ⟨k, hk⟩ := Option.isSome_iff_exists.mp hscalar
      cases hread (.scalar hk)
    · cases hread (.anyArray harray)
    · have hname := hread (.keyword hkey)
      rw [Ty.named.injEq] at hname
      rwa [hname.1] at hkey
    · cases hread (.null hnull)
  · intro hkey
    cases hres : isReserved s with
    | true =>
      have hword := hkey hres
      have hsame : lowered s.toList = s :=
        hlower.trans (asciiLower_keywordTypes s (List.contains_iff_mem.mp hword))
      have hdenotes := Denotes.bare (@Denotes.keyword s.toList (by rwa [hsame]))
      rw [hsame] at hdenotes
      exact hdenotes.parse_eq
    | false =>
      exact (h.nameType_eq ▸ Denotes.bare (.className (h.isClassName hres))).parse_eq

/-- A class name that begins with a backslash or as names do resolves to its full name. -/
theorem resolve_className (hscope : scope.HasPaths) (h : IsClassName s.toList)
    (hhead : s.toList.head? = some '\\' ∨ StartsAsName s) :
    IsPath (scope.qualify s) ∧ resolve scope s = .ok (some (.named (scope.qualify s) false)) := by
  have hrow := qualifyAfter_nameChars scope.qualify h.chars
  rcases hhead with hslash | hstart
  · have hstays : qualify scope.qualify s = s := by
      have hstarts : startsName '\\' = false := by decide
      rw [qualify, hrow, hslash, Option.any_some, hstarts, if_neg (by decide), String.ofList_toList]
    have hfull : scope.qualify s = String.ofList (Text.dropBackslashes s.toList) := by
      obtain ⟨cs, hcs⟩ := List.head?_eq_some_iff.mp hslash
      unfold Scope.qualify
      split
      · rfl
      · next heq => rw [hcs] at heq; cases heq
      · next hother _ => exact absurd hcs (hother cs)
    rw [resolve, hstays, hfull]
    exact ⟨h.isPath, (Denotes.bare (.className h)).parse_eq⟩
  · have hpath := isPath_of_startsName h.chars hstart
    rw [String.ofList_toList] at hpath
    have hfull := Scope.HasPaths.qualify hscope hpath
    have hplain : (s.toList.head? == some '\\') = false := by simpa using hpath.plain
    have hname : qualifyAfter scope.qualify none s.toList = '\\' :: (scope.qualify s).toList := by
      have hreserved := h.notReserved
      rw [hrow.trans (if_pos hstart), qualifyName]
      rw [String.ofList_toList] at hreserved ⊢
      simp [hplain, hreserved, hfull.dropBackslashes]
    refine ⟨hfull, Denotes.parse_eq ?_⟩
    rw [qualify, hname, String.toList_ofList]
    exact hfull.denotes_absolute

/-- A class name that is qualified as one name is read as it resolves, unless its full name is a
word of the grammar other than a keyword in lower case. -/
theorem readsAsResolved_className (hscope : scope.HasPaths) (h : IsClassName s.toList)
    (hhead : s.toList.head? = some '\\' ∨ StartsAsName s) :
    ReadsAsResolved scope s ↔
      (isReserved (scope.qualify s) = true → isKeyword (scope.qualify s) = true) := by
  obtain ⟨hpath, hresolve⟩ := resolve_className hscope h hhead
  rw [ReadsAsResolved, hresolve]
  exact hpath.parse_eq_iff

end ClassName

/-! ### The text of one alternative behind a namespace -/

section Under

variable {row base w args : List Char} {t : Ty}

/-- A question mark inside of a text makes a name of the whole text. -/
theorem readsAlternative_inner_question (hrow : ∀ c ∈ row, isNameChar c = true) (hne : row ≠ [])
    (hplain : row.head? ≠ some '\\') (hbase : Nested isNameChar base)
    (hlast : ('?' :: base).getLast? ≠ some ']') :
    ReadsAlternative (row ++ '?' :: base) (.named (String.ofList (row ++ '?' :: base)) false) := by
  obtain ⟨c, tail, rfl⟩ := List.exists_cons_of_ne_nil hne
  have hc : isNameChar c = true := hrow c List.mem_cons_self
  have hnested : Nested (fun d => isNameChar d || d == '?') (c :: tail ++ '?' :: base) :=
    ((nested_of_nameChars hrow).mono fun d hd => by simp [hd]).append
      (.char (by decide) (by decide) (by decide) (hbase.mono fun d hd => by simp [hd]))
  have htrim : trim (c :: tail ++ '?' :: base) = c :: tail ++ '?' :: base :=
    hnested.trim_eq_self (not_isBlank_of_isNameChar_or (by decide))
  have hsymbol : firstSymbol? (c :: tail ++ '?' :: base) = some '?' := by
    rw [firstSymbol?_append, firstSymbol?_of_forall hrow, firstSymbol?_cons (by decide)]
    rfl
  have hother : ∀ d, isNameChar d = false → c ≠ d := fun d hd heq => by
    rw [← heq, hc] at hd
    cases hd
  have hgeneric : genericParts? (c :: tail ++ '?' :: base) = none := by
    refine Option.eq_none_iff_forall_ne_some.mpr fun ⟨name, args⟩ hparts => ?_
    obtain ⟨b, hb, -, hname, heq⟩ := genericParts?_eq_some.mp hparts
    rw [heq, firstSymbol?_append, firstSymbol?_of_forall hname] at hsymbol
    cases b with
    | nil =>
      rw [List.nil_append, firstSymbol?_cons (by decide)] at hsymbol
      exact absurd hsymbol (by decide)
    | cons d b =>
      have hblank := hb d List.mem_cons_self
      have hd : isNameChar d = false := Bool.eq_false_iff.mpr fun hd => by
        rw [not_isBlank_of_isNameChar hd] at hblank
        cases hblank
      rw [List.cons_append, firstSymbol?_cons hd] at hsymbol
      obtain rfl : d = '?' := by simpa using hsymbol
      exact absurd hblank (by decide)
  have hbrackets : endsWithBrackets (c :: tail ++ '?' :: base) = false := by
    refine Bool.eq_false_iff.mpr fun hbrackets => hlast ?_
    obtain ⟨xs, hxs⟩ := endsWithBrackets_iff.mp hbrackets
    rw [← List.getLast?_append_of_ne_nil (c :: tail) (List.cons_ne_nil '?' base), hxs]
    simp
  have hkeyword : isKeyword (lowered (c :: tail ++ '?' :: base)) = false := by
    refine Bool.eq_false_iff.mpr fun hkey => ?_
    have hreserved : isReserved (String.ofList (c :: tail ++ '?' :: base)) = true := by
      rw [isReserved_ofList, hkey]
      simp
    exact absurd ((nameChars_of_isReserved hreserved).2 '?' (by simp)) (by decide)
  have hdrop : Text.dropBackslashes (c :: tail ++ '?' :: base) = c :: tail ++ '?' :: base :=
    Text.dropBackslashes_eq_self (by simpa using hplain)
  have hand : splitOutside '&' (c :: tail ++ '?' :: base) = [trim (c :: tail ++ '?' :: base)] :=
    splitOutside_eq_singleton (by decide) hnested (by decide)
  refine ⟨⟨hnested.mono fun d hd => ?_, ?_, by simp [Ty.WellFormed, String.ext_iff]⟩,
    fun hmark => ?_⟩
  · rcases Bool.or_eq_true _ _ ▸ hd with hname | hquestion
    · simp [inAlternative, hname]
    · simp [inAlternative, hquestion]
  · have hform : form (c :: tail ++ '?' :: base) = .other (c :: tail ++ '?' :: base) := by
      rw [form, htrim]
      have hgroup : isWrapped (c :: tail ++ '?' :: base) = false :=
        not_isWrapped_of_head (by simpa using hother '(' (by decide))
      rw [List.cons_append] at hand hgeneric hbrackets hsymbol hgroup ⊢
      simp [hgroup, hand, hother '?' (by decide), plainForm, wordType?_eq_none hsymbol (by decide),
        hgeneric, hbrackets]
    rw [alternative_eq_read, hform, Form.read, wordOrName_of_not_isKeyword hkeyword,
      nameType, hdrop]
    simp
  · rw [htrim] at hmark
    exact absurd (Option.some.inj hmark) (hother '?' (by decide))

/-- No arguments, or arguments in angle brackets. -/
def IsArguments (args : List Char) : Prop :=
  args = [] ∨ ∃ inner, Nested (fun _ => true) inner ∧ args = '<' :: (inner ++ ['>'])

/-- A name with its arguments is nested. -/
theorem nested_nameAndArguments (hw : ∀ c ∈ w, isNameChar c = true) (hargs : IsArguments args) :
    Nested isNameChar (w ++ args) := by
  rcases hargs with rfl | ⟨inner, hinner, rfl⟩
  · rw [List.append_nil]
    exact nested_of_nameChars hw
  · exact (nested_of_nameChars hw).append (.bracketed rfl hinner)

theorem getLast?_nameAndArguments (hw : ∀ c ∈ w, isNameChar c = true) (hargs : IsArguments args) :
    ('?' :: (w ++ args)).getLast? ≠ some ']' := by
  rcases hargs with rfl | ⟨inner, -, rfl⟩
  · intro hlast
    rw [List.append_nil] at hlast
    rcases List.mem_cons.mp (List.mem_of_getLast? hlast) with heq | hmem
    · exact absurd heq (by decide)
    · exact absurd (hw _ hmem) (by decide)
  · have hlast : ('?' :: (w ++ '<' :: (inner ++ ['>']))).getLast? = some '>' := by
      rw [List.getLast?_eq_some_iff]
      exact ⟨'?' :: (w ++ '<' :: inner), by simp⟩
    rw [hlast]
    decide

/-- The text of a canonical type is nested. -/
theorem Canonical.nested_render (h : Canonical t) : Nested (fun _ => true) t.render.toList := by
  have hdenotes := (@Canonical.denotes_filter (fun _ => true) (fun _ _ => rfl) t h).1
  rw [List.filter_true] at hdenotes
  have hreads : ReadsExpression t.render.toList t := hdenotes.reads
  exact hreads.nested.mono fun _ _ => rfl

/-- How the text of a type that is no union is made: of a name and perhaps arguments, behind a
question mark or not. Without the mark the name is a word of the grammar or that of the type. -/
def WrittenAs (t : Ty) (w : String) (args : List Char) : Prop :=
  IsPath w ∧ IsArguments args ∧
    (t.render.toList = '?' :: (w.toList ++ args) ∨ t.render.toList = w.toList ++ args ∧
      (isReserved w = true ∨ args = [] ∧ t = .named w false))

/-- A word of the grammar, and what may stand behind it, with or without the mark. -/
theorem writtenAs_marked {base : String} {n : Bool} {w : String}
    (htext : t.render = Ty.marked n base) (hbase : base.toList = w.toList ++ args)
    (hw : isReserved w = true) (hargs : IsArguments args) :
    WrittenAs t w args := by
  refine ⟨isPath_of_isReserved hw, hargs, ?_⟩
  rw [htext, Ty.marked]
  split
  · exact .inl (by simp [hbase])
  · exact .inr ⟨hbase, .inl hw⟩

/-- The text of a canonical type that is no union is made of a name and perhaps arguments. -/
theorem Canonical.exists_writtenAs (h : Canonical t) (hsingle : t.isUnion = false) :
    ∃ w args, WrittenAs t w args := by
  have harray : isReserved "array" = true := by decide
  cases h with
  | scalar k n =>
    exact ⟨k.word, [], writtenAs_marked rfl (by simp) (by cases k <;> decide) (.inl rfl)⟩
  | @named s n h =>
    cases n with
    | false =>
      exact ⟨s, [], h.toIsPath, .inl rfl, .inr ⟨by simp [Ty.render, Ty.marked], .inr ⟨rfl, rfl⟩⟩⟩
    | true =>
      by_cases hnull : s = "null"
      · exact ⟨s, [], writtenAs_marked rfl (by simp) (by rw [hnull]; decide) (.inl rfl)⟩
      · exact ⟨s, [], h.toIsPath, .inl rfl, .inl (by simp [Ty.render, Ty.marked, hnull])⟩
  | @array v n h =>
    by_cases hmixed : (v.isMixed && !v.nullable) = true
    · have htext : (Ty.array v n).render = Ty.marked n "array" := by rw [Ty.render, if_pos hmixed]
      exact ⟨"array", [], writtenAs_marked htext (by simp) harray (.inl rfl)⟩
    · have htext : (Ty.array v n).render = Ty.marked n ("array<" ++ v.render ++ ">") := by
        rw [Ty.render, if_neg hmixed]
      exact ⟨"array", '<' :: (v.render.toList ++ ['>']), writtenAs_marked htext (by simp) harray
        (.inr ⟨_, h.nested_render, rfl⟩)⟩
  | @keyed k v n hk hv =>
    have hinner : Nested (fun _ => true) (k.render.toList ++ ',' :: ' ' :: v.render.toList) :=
      hk.nested_render.append (.char (by decide) (by decide) rfl
        (.char (by decide) (by decide) rfl hv.nested_render))
    exact ⟨"array", _, writtenAs_marked rfl (by simp) harray (.inr ⟨_, hinner, rfl⟩)⟩
  | union n hlen hinc hms hcan => cases hsingle

/-- Behind a namespace a single type is read as one name in this namespace. -/
theorem WrittenAs.reads_under {ns w : String} (h : WrittenAs t w args) (hns : IsPath ns) :
    ∃ name, ReadsAlternative ((ns ++ "\\").toList ++ t.render.toList)
        (.named (ns ++ "\\" ++ name) false) ∧
      (StartsAsName name → isReserved name = false → t = .named name false) := by
  obtain ⟨hw, hargs, htext⟩ := h
  have hrow : IsPath (ns ++ "\\" ++ w) := hns.append hw.chars
  have hslash : '\\' ∈ (ns ++ "\\" ++ w).toList := by simp
  have hclass := hrow.isClassName (not_isReserved_of_backslash hslash)
  rcases htext with htext | ⟨htext, hname⟩
  · -- the mark stands inside of the text and belongs to the name
    have hfront : IsPath (ns ++ "\\") := by
      have hempty := @IsPath.append ns "" hns (by simp)
      rwa [String.append_empty] at hempty
    refine ⟨t.render, ?_, fun hstart => ?_⟩
    · have hreads := readsAlternative_inner_question hfront.chars
        (mt String.toList_eq_nil_iff.mp hfront.nonempty) hfront.plain
        (nested_nameAndArguments hw.chars hargs) (getLast?_nameAndArguments hw.chars hargs)
      have hwhole :
          String.ofList ((ns ++ "\\").toList ++ t.render.toList) = ns ++ "\\" ++ t.render := by
        simp [String.ext_iff]
      rw [← htext, hwhole] at hreads
      exact hreads
    · rw [StartsAsName, htext, List.head?_cons, Option.any_some] at hstart
      exact absurd hstart (by decide)
  · have hsplit : (ns ++ "\\").toList ++ t.render.toList = (ns ++ "\\" ++ w).toList ++ args := by
      simp [htext]
    have hdenotes : Denotes .suffixed ((ns ++ "\\").toList ++ t.render.toList)
        (.named (ns ++ "\\" ++ w) false) := by
      rw [hsplit, ← hrow.nameType_eq]
      rcases hargs with rfl | ⟨inner, hinner, rfl⟩
      · rw [List.append_nil]
        exact .bare (.className hclass)
      · have harray : isArrayName (ns ++ "\\" ++ w).toList = false := by
          have hres := hclass.notReserved
          simp only [isReserved_ofList, Bool.or_eq_false_iff] at hres
          rw [isArrayName, hrow.dropBackslashes]
          exact hres.1.1.2
        exact .bare (.generic hclass harray hinner)
    refine ⟨w, (Denotes.plain hdenotes).reads, fun _ hres => ?_⟩
    rcases hname with hreserved | ⟨-, hname⟩
    · rw [hres] at hreserved
      cases hreserved
    · exact hname

/-- The text begins neither with a backslash nor with a dollar sign. -/
theorem WrittenAs.head?_render {w : String} (h : WrittenAs t w args) :
    ∃ c, t.render.toList.head? = some c ∧ c ≠ '\\' ∧ c ≠ '$' := by
  obtain ⟨hw, -, htext⟩ := h
  rcases htext with htext | ⟨htext, -⟩
  · exact ⟨'?', by rw [htext]; rfl, by decide, by decide⟩
  · obtain ⟨c, cs, hcs⟩ := List.exists_cons_of_ne_nil (mt String.toList_eq_nil_iff.mp hw.nonempty)
    have hplain := hw.plain
    have hchar := hw.chars c (by simp [hcs])
    refine ⟨c, by rw [htext, hcs]; rfl, fun heq => hplain (by rw [hcs, heq]; rfl), ?_⟩
    rintro rfl
    exact absurd hchar (by decide)

end Under

/-! ### Names in merged and in renamed types -/

section Names

variable {f : String → String} {t : Ty} {ts : List Ty} {n : String}

/-- A name of some types is one of one of them. -/
theorem mem_namesIn : n ∈ Ty.namesIn ts ↔ ∃ t ∈ ts, n ∈ t.names := by
  induction ts with
  | nil => simp [Ty.namesIn]
  | cons t ts ih => simp [Ty.namesIn, ih]

theorem names_withNullable (t : Ty) (b : Bool) : (t.withNullable b).names = t.names := by
  cases t <;> rfl

/-- A merge has the names of its candidates, `null` apart. -/
theorem mem_names_merge (hne : ts ≠ []) (hn : n ≠ "null") :
    n ∈ (Ty.merge ts).names ↔ ∃ t ∈ ts, n ∈ t.names := by
  have hlacks : ∀ t : Ty, t.AllNames (· ≠ n) ↔ n ∉ t.names := fun t => by
    rw [Ty.allNames_iff_forall_mem]
    exact ⟨fun h hmem => h n hmem rfl, fun h m hm heq => h (heq ▸ hm)⟩
  constructor
  · intro hmem
    by_contra hnone
    refine (hlacks _).mp
      (Ty.allNames_merge hne hn.symm fun t ht => (hlacks t).mpr fun hmem => ?_) hmem
    exact hnone ⟨t, ht, hmem⟩
  · rintro ⟨t, ht, hmem⟩
    by_contra hnone
    exact (hlacks t).mp (Ty.allNames_of_merge hn.symm ((hlacks _).mpr hnone) t ht) hmem

/-- Merging loses no name but that of null, and adds none. -/
theorem mem_names_merge_map {g : Ty → Ty} (hne : ts ≠ []) (hn : n ≠ "null") :
    n ∈ (Ty.merge (ts.map g)).names ↔ ∃ t ∈ ts, n ∈ (g t).names := by
  rw [mem_names_merge (by simpa using hne) hn]
  simp

/-- Replacing names replaces each name in the type, and `null` may come in. -/
theorem mem_names_mapNames (h : Canonical t) (hn : n ≠ "null") :
    n ∈ (t.mapNames f).names ↔ ∃ m ∈ t.names, f m = n := by
  induction h with
  | scalar k b => simp [Ty.mapNames, Ty.names]
  | named h => simp [Ty.mapNames, Ty.names, eq_comm]
  | array b _ ih => exact ih
  | keyed b _ _ ihk ihv =>
    simp only [Ty.mapNames, Ty.names, List.mem_append, ihk, ihv, or_and_right, exists_or]
  | @union ms b hlen _ _ _ ih =>
    have hms : ms ≠ [] := List.ne_nil_of_length_pos (by omega)
    have hnames : n ∈ ((Ty.union ms b).mapNames f).names ↔ ∃ m ∈ ms, n ∈ (m.mapNames f).names := by
      rw [Ty.mapNames_union, ← mem_names_merge_map hms hn]
      split
      · rw [names_withNullable]
      · exact Iff.rfl
    rw [hnames, Ty.names]
    constructor
    · rintro ⟨m, hm, hmem⟩
      obtain ⟨name, hname, heq⟩ := (ih m hm).mp hmem
      exact ⟨name, mem_namesIn.mpr ⟨m, hm, hname⟩, heq⟩
    · rintro ⟨name, hname, heq⟩
      obtain ⟨m, hm, hmem⟩ := mem_namesIn.mp hname
      exact ⟨m, hm, (ih m hm).mpr ⟨name, hmem, heq⟩⟩

/-- A type whose names stay is not changed. -/
theorem mapNames_eq_self (h : Canonical t) (hf : t.AllNames fun name => f name = name) :
    t.mapNames f = t := by
  induction h with
  | scalar k b => rfl
  | @named s b h => exact congrArg (Ty.named · b) hf
  | @array v b _ ih => exact congrArg (Ty.array · b) (ih hf)
  | keyed b _ _ ihk ihv => rw [Ty.mapNames, ihk hf.1, ihv hf.2]
  | @union ms b hlen hinc hms hcan ih =>
    have hall := Ty.allNamesIn_iff.mp hf
    have hmap : ms.map (Ty.mapNames f) = ms :=
      (List.map_congr_left fun m hm => ih m hm (hall m hm)).trans (List.map_id' ms)
    have hwf : (Ty.union ms false).WellFormed :=
      (Canonical.union false hlen hinc hms hcan).wellFormed
    rw [Ty.mapNames_union, hmap, Ty.merge_members hwf fun _ => Iff.rfl]
    cases b <;> rfl

/-- The class names in some types. -/
def classNames (ts : List Ty) : List String :=
  (Ty.namesIn ts).filter (!isReserved ·)

/-- The class names of some types are their names that are no words of the grammar. -/
theorem mem_classNames : n ∈ classNames ts ↔ (∃ t ∈ ts, n ∈ t.names) ∧ isReserved n = false := by
  rw [classNames, List.mem_filter, mem_namesIn, Bool.not_eq_true']

theorem mem_classNames_cons :
    n ∈ classNames (t :: ts) ↔ n ∈ classNames [t] ∨ n ∈ classNames ts := by
  simp only [mem_classNames, List.exists_mem_cons_iff, List.not_mem_nil, false_and, exists_false,
    or_false, or_and_right]

/-- If names in a namespace and some names are the same as all these names in the namespace, then
only the first of them is there. -/
theorem only_first_named {ns w : String} {first others : List String}
    (h : ∀ name, (name = ns ++ "\\" ++ w ∨ name ∈ others) ↔
      ∃ m, (m ∈ first ∨ m ∈ others) ∧ ns ++ "\\" ++ m = name)
    (hw : w ∈ others → ∀ m ∈ first, m = w) : others = [] ∧ w ∈ first := by
  have hlength : ∀ m : String, (ns ++ "\\" ++ m).length = ns.length + 1 + m.length := fun m => by
    rw [String.length_append, String.length_append]
    rfl
  have hcancel : ∀ {m m' : String}, ns ++ "\\" ++ m = ns ++ "\\" ++ m' → m = m' := fun heq => by
    simpa [String.ext_iff] using heq
  have hnil : others = [] := by
    by_contra hne
    obtain ⟨name, hname⟩ := List.exists_mem_of_ne_nil others hne
    have hsome : others.toFinset.Nonempty := ⟨name, List.mem_toFinset.mpr hname⟩
    obtain ⟨longest, hlong, hmax⟩ := others.toFinset.exists_max_image String.length hsome
    obtain ⟨shortest, hshort, hmin⟩ := others.toFinset.exists_min_image String.length hsome
    simp only [List.mem_toFinset] at hlong hmax hshort hmin
    -- the longest name gets longer in the namespace, so it is no other one of them
    have hfirst : longest = w := by
      rcases (h _).mpr ⟨longest, .inr hlong, rfl⟩ with heq | hmem
      · exact hcancel heq
      · have hle := hmax _ hmem
        rw [hlength] at hle
        omega
    -- the shortest name comes from a shorter one
    obtain ⟨m, hm, heq⟩ := (h shortest).mp (.inr hshort)
    have hlen := hlength m
    rw [heq] at hlen
    rcases hm with hm | hm
    · have hle := hmax _ hshort
      rw [hfirst, ← hw (hfirst ▸ hlong) m hm] at hle
      omega
    · have hle := hmin _ hm
      omega
  refine ⟨hnil, ?_⟩
  obtain ⟨m, hm, heq⟩ := (h _).mp (.inl rfl)
  rw [hnil] at hm
  rcases hm with hm | hm
  · exact hcancel heq ▸ hm
  · cases hm

end Names

/-! ### Texts of alternatives -/

/-- What stands before the first backslash of a text. -/
def firstPart (s : String) : String :=
  String.ofList ((Text.cutAt '\\' s.toList).getD (s.toList, [])).1

/-- No import is under the first part of the text. -/
def NotImported (scope : Scope) (s : String) : Prop :=
  scope.imports.get? (firstPart s) = none

/-- A type that can stand among others as an alternative, with names that are not imported. -/
structure IsAlternative (scope : Scope) (t : Ty) : Prop where
  canonical : Canonical t
  single : t.isUnion = false
  names : t.AllNames fun name => StartsAsName name ∧ NotImported scope name

/-- The texts of alternatives with bars between them. -/
def joinedTypes (ts : List Ty) : String :=
  Text.joined "|" (ts.map Ty.render)

section Alternatives

variable {scope : Scope} {s : String} {t : Ty} {ts : List Ty}

/-- A name that is not imported belongs to the namespace, unless it is a relative word. -/
theorem NotImported.qualify_eq (h : NotImported scope s) {c : Char}
    (hc : s.toList.head? = some c ∧ c ≠ '\\' ∧ c ≠ '$') : scope.qualify s =
      if Scope.isRelativeWord s then s else Scope.underNamespace scope.ns s := by
  obtain ⟨hhead, hslash, hdollar⟩ := hc
  unfold Scope.qualify
  split
  · next heq => exact absurd (by simpa [heq] using hhead) hslash.symm
  · next heq => exact absurd (by simpa [heq] using hhead) hdollar.symm
  · dsimp only
    rw [show scope.imports.get? (String.ofList _) = none from h]

/-- Relative words are words of the grammar. -/
theorem isReserved_of_isRelativeWord (h : Scope.isRelativeWord s = true) : isReserved s = true := by
  simp only [Scope.isRelativeWord, Bool.or_eq_true, beq_iff_eq] at h
  rcases h with (h | h) | h <;> simp [isReserved, h] <;> decide

/-- In a namespace a name stands behind it. -/
theorem underNamespace_of_ne {ns : String} (h : ns ≠ "") (name : String) :
    Scope.underNamespace ns name = ns ++ "\\" ++ name := by
  rw [Scope.underNamespace, if_neg (by simpa [String.isEmpty_iff] using h)]

theorem StartsAsName.exists_head (h : StartsAsName s) :
    ∃ c, s.toList.head? = some c ∧ startsName c = true := by
  rw [StartsAsName] at h
  cases hhead : s.toList.head? with
  | none => simp [hhead] at h
  | some c => exact ⟨c, rfl, by simpa [hhead] using h⟩

/-- The full name of what is not imported is the name in the namespace, or the word itself. -/
theorem fullName_eq (hstart : StartsAsName s) (h : NotImported scope s) :
    fullName scope s = if isReserved s then s else Scope.underNamespace scope.ns s := by
  rw [fullName]
  split
  · rfl
  · next hres =>
    obtain ⟨c, hhead, hc⟩ := hstart.exists_head
    have hdollar : c ≠ '$' := by
      rintro rfl
      exact absurd hc (by decide)
    rw [h.qualify_eq ⟨hhead, ne_backslash_of_startsName hc, hdollar⟩, if_neg]
    exact fun hrel => hres (isReserved_of_isRelativeWord hrel)

/-- Types are joined by bars. -/
theorem toList_joinedTypes (ts : List Ty) :
    (joinedTypes ts).toList = ['|'].intercalate (ts.map fun t => t.render.toList) := by
  rw [joinedTypes, Text.joined, String.toList_intercalate, List.map_map]
  rfl

/-- Whatever stands in front of the text stands in front of the first alternative. -/
theorem toList_append_joinedTypes (front : List Char) (t : Ty) (ts : List Ty) :
    front ++ (joinedTypes (t :: ts)).toList =
      ['|'].intercalate ((front ++ t.render.toList) :: ts.map fun t => t.render.toList) := by
  rw [intercalate_append_cons, toList_joinedTypes, List.map_cons]

/-- An alternative is read as itself. -/
theorem IsAlternative.reads (h : IsAlternative scope t) : ReadsAlternative t.render.toList t := by
  have hdenotes :=
    (@Canonical.denotes_filter (fun _ => true) (fun _ _ => rfl) t h.canonical).2 h.single
  rw [List.filter_true] at hdenotes
  exact hdenotes.reads

theorem IsAlternative.allNames_fullName (h : IsAlternative scope t) :
    t.AllNames fun name => fullName scope name =
      if isReserved name then name else Scope.underNamespace scope.ns name :=
  (Ty.allNames_iff_forall_mem t).mpr fun name hname =>
    have hboth := (Ty.allNames_iff_forall_mem t).mp h.names name hname
    fullName_eq hboth.1 hboth.2

/-- Alternatives are read one by one, whatever the first of them is. -/
theorem parse_joinedTypes {front : String} {u : Ty}
    (hfirst : ReadsAlternative (front.toList ++ t.render.toList) u)
    (hts : ∀ v ∈ ts, IsAlternative scope v) :
    parse (front ++ joinedTypes (t :: ts)) = .ok (some (.merge (u :: ts))) := by
  have hall : ∀ p ∈ (front.toList ++ t.render.toList, u) :: ts.map (fun v => (v.render.toList, v)),
      ReadsAlternative p.1 p.2 := by
    refine List.forall_mem_cons.mpr ⟨hfirst, fun p hp => ?_⟩
    obtain ⟨v, hv, rfl⟩ := List.mem_map.mp hp
    exact (hts v hv).reads
  have hread := (ReadsExpression.alternatives (List.cons_ne_nil _ _) hall).read
  rw [parse, String.toList_append, toList_append_joinedTypes]
  simpa [Function.comp_def] using hread

/-- Joined alternatives are resolved one by one and merged. -/
theorem resolve_joinedTypes (hscope : scope.HasPaths) (hne : ts ≠ [])
    (h : ∀ t ∈ ts, IsAlternative scope t) : resolve scope (joinedTypes ts) =
      .ok (some (.merge (ts.map (Ty.mapNames (fullName scope))))) := by
  have hdenotes : ∀ t ∈ ts, Denotes .alternative (qualifyAfter scope.qualify none t.render.toList)
      (t.mapNames (fullName scope)) := fun t ht =>
    ((h t ht).canonical.denotes_qualified hscope
      ((Ty.allNames_iff_forall_mem t).mpr fun name hname =>
        ((Ty.allNames_iff_forall_mem t).mp (h t ht).names name hname).1)).2 (h t ht).single
  rw [resolve, parse, qualify, String.toList_ofList, toList_joinedTypes,
    qualifyAfter_intercalate scope.qualify (by decide), List.map_map]
  exact (denotes_intercalate hne hdenotes).expression_eq

section Under

variable (hns : scope.ns ≠ "") (h : ∀ u ∈ t :: ts, IsAlternative scope u)
include hns h

/-- The full name of a class name has the namespace in front. -/
theorem fullName_under {u : Ty} (hu : u ∈ t :: ts) {name : String} (hname : name ∈ u.names) :
    fullName scope name = if isReserved name then name else scope.ns ++ "\\" ++ name := by
  rw [← underNamespace_of_ne hns]
  exact (Ty.allNames_iff_forall_mem u).mp (h u hu).allNames_fullName name hname

/-- The class names of the renamed types are those of the types, in the namespace. -/
theorem mem_classNames_fullName {n : String} :
    n ∈ classNames ((t :: ts).map (Ty.mapNames (fullName scope))) ↔
      ∃ m ∈ classNames (t :: ts), scope.ns ++ "\\" ++ m = n := by
  rw [mem_classNames]
  constructor
  · rintro ⟨⟨v, hv, hn⟩, hclass⟩
    obtain ⟨u, hu, rfl⟩ := List.mem_map.mp hv
    have hnull : n ≠ "null" := by
      rintro rfl
      exact absurd hclass (by decide)
    obtain ⟨m, hm, heq⟩ := (mem_names_mapNames (h u hu).canonical hnull).mp hn
    rw [fullName_under hns h hu hm] at heq
    split at heq
    · next hres =>
      rw [heq, hclass] at hres
      cases hres
    · next hres => exact ⟨m, mem_classNames.mpr ⟨⟨u, hu, hm⟩, by simpa using hres⟩, heq⟩
  · rintro ⟨m, hm, rfl⟩
    obtain ⟨⟨u, hu, hmem⟩, hclass⟩ := mem_classNames.mp hm
    have hslash : '\\' ∈ (scope.ns ++ "\\" ++ m).toList := by simp
    have hnull : scope.ns ++ "\\" ++ m ≠ "null" := fun heq => by
      rw [heq] at hslash
      exact absurd hslash (by decide)
    refine ⟨⟨_, List.mem_map_of_mem hu, ?_⟩, not_isReserved_of_backslash hslash⟩
    refine (mem_names_mapNames (h u hu).canonical hnull).mpr ⟨m, hmem, ?_⟩
    rw [fullName_under hns h hu hmem, hclass]
    rfl

/-- Where the first alternative is taken for a name in the namespace and the result is that of
resolution, the first alternative is this name, and the others have no class names. -/
theorem named_of_merge_eq {name : String}
    (hmerge : Ty.merge (.named (scope.ns ++ "\\" ++ name) false :: ts) =
      .merge ((t :: ts).map (Ty.mapNames (fullName scope))))
    (hname : StartsAsName name → isReserved name = false → t = .named name false) :
    t = .named name false ∧ isReserved name = false ∧
      ∀ u ∈ ts, u.AllNames (isReserved · = true) := by
  have hslash : '\\' ∈ (scope.ns ++ "\\" ++ name).toList := by simp
  have hfirst : ∀ n, n ∈ classNames [.named (scope.ns ++ "\\" ++ name) false] ↔
      n = scope.ns ++ "\\" ++ name := fun n => by
    rw [mem_classNames]
    simp only [List.mem_singleton, exists_eq_left, Ty.names]
    exact ⟨fun hn => hn.1, fun heq => ⟨heq, heq ▸ not_isReserved_of_backslash hslash⟩⟩
  -- equal types have the same class names
  have hsame : ∀ n, n ∈ classNames (.named (scope.ns ++ "\\" ++ name) false :: ts) ↔
      n ∈ classNames ((t :: ts).map (Ty.mapNames (fullName scope))) := fun n => by
    rw [mem_classNames, mem_classNames]
    refine and_congr_left fun hclass => ?_
    have hnull : n ≠ "null" := by
      rintro rfl
      exact absurd hclass (by decide)
    rw [← mem_names_merge (List.cons_ne_nil _ _) hnull, hmerge, mem_names_merge (by simp) hnull]
  have hstarts : ∀ n ∈ classNames (t :: ts), StartsAsName n ∧ isReserved n = false := fun n hn => by
    obtain ⟨⟨u, hu, hmem⟩, hclass⟩ := mem_classNames.mp hn
    exact ⟨((Ty.allNames_iff_forall_mem u).mp (h u hu).names n hmem).1, hclass⟩
  obtain ⟨hothers, hmem⟩ := @only_first_named scope.ns name (classNames [t]) (classNames ts)
    (fun n => by
      rw [← hfirst, ← mem_classNames_cons, hsame, mem_classNames_fullName hns h]
      exact exists_congr fun m => and_congr_left fun _ => mem_classNames_cons)
    (fun hw m hm => by
      obtain ⟨hstart, hclass⟩ := hstarts name (mem_classNames_cons.mpr (.inr hw))
      rw [hname hstart hclass] at hm
      obtain ⟨⟨u, hu, hmu⟩, -⟩ := mem_classNames.mp hm
      rw [List.mem_singleton.mp hu] at hmu
      exact List.mem_singleton.mp hmu)
  obtain ⟨hstart, hclass⟩ := hstarts name (mem_classNames_cons.mpr (.inl hmem))
  refine ⟨hname hstart hclass, hclass,
    fun u hu => (Ty.allNames_iff_forall_mem u).mpr fun n hn => ?_⟩
  by_contra hres
  have hn : n ∈ classNames ts := mem_classNames.mpr ⟨⟨u, hu, hn⟩, by simpa using hres⟩
  rw [hothers] at hn
  cases hn

/-- In a namespace the two ways agree exactly if the first alternative is a class name and the
others have no class names. -/
theorem readsAsResolved_under (hscope : scope.HasPaths) :
    parse (scope.ns ++ "\\" ++ joinedTypes (t :: ts)) = resolve scope (joinedTypes (t :: ts)) ↔
      (∃ name, t = .named name false ∧ isReserved name = false) ∧
        ∀ u ∈ ts, u.AllNames (isReserved · = true) := by
  have hpath : IsPath scope.ns := hscope.ns.resolve_left hns
  obtain ⟨ht, hts⟩ := List.forall_mem_cons.mp h
  rw [resolve_joinedTypes hscope (List.cons_ne_nil _ _) h]
  constructor
  · intro hagree
    obtain ⟨w, args, hwritten⟩ := ht.canonical.exists_writtenAs ht.single
    obtain ⟨name, hreads, hname⟩ := hwritten.reads_under hpath
    rw [parse_joinedTypes hreads hts] at hagree
    obtain ⟨hnamed, hclass, hothers⟩ :=
      named_of_merge_eq hns h (Option.some.inj (Except.ok.inj hagree)) hname
    exact ⟨⟨name, hnamed, hclass⟩, hothers⟩
  · rintro ⟨⟨name, rfl, hclass⟩, hothers⟩
    have hrow : IsPath (scope.ns ++ "\\" ++ name) := hpath.append (by
      cases ht.canonical with
      | named hname => exact hname.chars)
    have hslash : '\\' ∈ (scope.ns ++ "\\" ++ name).toList := by simp
    have hreads :
        ReadsAlternative ((scope.ns ++ "\\").toList ++ (Ty.named name false).render.toList)
        (.named (scope.ns ++ "\\" ++ name) false) := by
      have hdenotes := Denotes.bare
        (.className (hrow.isClassName (not_isReserved_of_backslash hslash)))
      rw [hrow.nameType_eq, String.toList_append] at hdenotes
      exact (Denotes.plain hdenotes).reads
    have hfirst : (Ty.named name false).mapNames (fullName scope) =
        .named (scope.ns ++ "\\" ++ name) false := by
      rw [Ty.mapNames, fullName_under hns h List.mem_cons_self (by simp [Ty.names]), hclass]
      rfl
    have hrest : ts.map (Ty.mapNames (fullName scope)) = ts := by
      refine (List.map_congr_left fun u hu => ?_).trans (List.map_id' ts)
      refine mapNames_eq_self (hts u hu).canonical
        ((Ty.allNames_iff_forall_mem u).mpr fun n hn => ?_)
      rw [fullName_under hns h (List.mem_cons_of_mem _ hu) hn,
        if_pos ((Ty.allNames_iff_forall_mem u).mp (hothers u hu) n hn)]
    rw [parse_joinedTypes hreads hts, List.map_cons, hfirst, hrest]

end Under

/-- Alternatives that are qualified as one name are read as they resolve exactly if there is no
namespace, if they are a single word that stands for a class without naming it, or if the first is a
class name and the others have no class names. -/
theorem readsAsResolved_alternatives (hscope : scope.HasPaths)
    (h : ∀ u ∈ t :: ts, IsAlternative scope u) (htext : NotImported scope (joinedTypes (t :: ts))) :
    ReadsAsResolved scope (joinedTypes (t :: ts)) ↔
      scope.ns = "" ∨ Scope.isRelativeWord (joinedTypes (t :: ts)) = true ∨
        (∃ name, t = .named name false ∧ isReserved name = false) ∧
          ∀ u ∈ ts, u.AllNames (isReserved · = true) := by
  obtain ⟨ht, hts⟩ := List.forall_mem_cons.mp h
  have hqualify : scope.qualify (joinedTypes (t :: ts)) =
      if Scope.isRelativeWord (joinedTypes (t :: ts)) then joinedTypes (t :: ts)
      else Scope.underNamespace scope.ns (joinedTypes (t :: ts)) := by
    obtain ⟨w, args, hwritten⟩ := ht.canonical.exists_writtenAs ht.single
    obtain ⟨c, hc, hplain⟩ := hwritten.head?_render
    refine htext.qualify_eq ⟨?_, hplain⟩
    have hsplit := toList_append_joinedTypes [] t ts
    rw [List.nil_append, List.nil_append, ← List.append_nil t.render.toList,
      intercalate_append_cons] at hsplit
    rw [hsplit, List.head?_append_of_ne_nil _ fun hnil => by simp [hnil] at hc, hc]
  cases hrel : Scope.isRelativeWord (joinedTypes (t :: ts)) with
  | true =>
    -- a word of the grammar is not touched by either way
    refine iff_of_true ?_ (.inr (.inl rfl))
    rw [hrel, if_pos rfl] at hqualify
    have hstays : qualify scope.qualify (joinedTypes (t :: ts)) = joinedTypes (t :: ts) := by
      rw [qualify, qualify_reserved (isReserved_of_isRelativeWord hrel), String.ofList_toList]
    rw [ReadsAsResolved, hqualify, resolve, hstays]
  | false =>
    rw [hrel, if_neg (by simp)] at hqualify
    rw [ReadsAsResolved, hqualify]
    by_cases hns : scope.ns = ""
    · -- without a namespace every name stands for itself
      refine iff_of_true ?_ (.inl hns)
      have hself : (t :: ts).map (Ty.mapNames (fullName scope)) = t :: ts := by
        refine (List.map_congr_left fun u hu => ?_).trans (List.map_id' _)
        refine mapNames_eq_self (h u hu).canonical
          ((Ty.allNames_iff_forall_mem u).mpr fun n hn => ?_)
        rw [(Ty.allNames_iff_forall_mem u).mp (h u hu).allNames_fullName n hn, hns]
        split <;> rfl
      have hread := @parse_joinedTypes scope t ts "" t ht.reads hts
      rw [resolve_joinedTypes hscope (List.cons_ne_nil _ _) h, hself, hns]
      rwa [String.empty_append] at hread
    · rw [underNamespace_of_ne hns, readsAsResolved_under hns h hscope]
      simp [hns]

end Alternatives

end TypeFacts.TypeText
