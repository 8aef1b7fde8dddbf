import Mathlib.Data.List.Chain
import TypeFacts.Proofs.Ty.Names
import TypeFacts.Proofs.TypeText.Grammar
import TypeFacts.Proofs.TypeText.Slashes

/-!
# Resolution in the global scope

Without a namespace and imports there is nothing to resolve. Yet a text is qualified before it is
read, and in the middle of a text that the grammar takes as one name, a name may begin:
`non-empty-string` is read as one name, but qualified as two (`hyphen_splits_name`).

Where no name of the type that is read has such a place inside it, resolving and reading agree
(`resolve_global`). The proof compares the two readings of a text and of its slashed form along the
recursion of the reader. They fail alike, find a type alike, and find the same type if no name in it
is broken (`Kept`, `Alike`).
-/

namespace TypeFacts.TypeText

open Text (Blank isBlank trim)

/-! ### Names that are not broken -/

/-- Characters that may follow each other inside of a name. -/
def Joined (b c : Char) : Prop :=
  startsName c = true → continuesName b = true

instance : DecidableRel Joined := fun b c =>
  inferInstanceAs (Decidable (startsName c = true → continuesName b = true))

/-- Does no name begin inside the name? -/
def Unbroken (name : String) : Prop :=
  name.toList.IsChain Joined

instance (name : String) : Decidable (Unbroken name) :=
  inferInstanceAs (Decidable (name.toList.IsChain Joined))

private theorem isChain_getLast?_append {xs ys : List Char} (h : (xs ++ ys).IsChain Joined) :
    (xs.getLast?.toList ++ ys).IsChain Joined := by
  obtain ⟨-, hys, hrel⟩ := List.isChain_append.mp h
  cases hlast : xs.getLast? with
  | none => exact hys
  | some l => exact List.isChain_cons.mpr ⟨hrel l (by rw [hlast]; exact rfl), hys⟩

/-- Behind some character of a row without a beginning of a name, nothing is replaced. -/
theorem qualifyAfter_of_joined (resolve : String → String) {b : Option Char} {cs : List Char}
    (hb : b ≠ none) (h : (b.toList ++ cs).IsChain Joined) : qualifyAfter resolve b cs = cs := by
  fun_induction qualifyAfter resolve b cs with
  | case1 b => rfl
  | case2 b c rest hcont ih => rw [ih (by simp) h.right_of_append]
  | case3 b c rest hcont name after hname ih =>
    have hsplit := append_of_nameAhead? hname
    have hkeep : qualifyName resolve name = name := by
      obtain ⟨x, rfl⟩ := Option.ne_none_iff_exists'.mp hb
      obtain ⟨slash, d, tail, rfl | rfl, hd, hcs, rfl, -⟩ := nameAhead?_eq_some.mp hname
      · -- the name would begin behind a character that does not continue names
        obtain ⟨rfl, -⟩ := List.cons.inj hcs
        exact absurd ((List.isChain_cons_cons.mp h).1 hd) hcont
      · simp [qualifyName]
    have hafter : (name.getLast?.toList ++ after).IsChain Joined :=
      isChain_getLast?_append (hsplit ▸ h.right_of_append)
    rw [hkeep, ih (by simpa using ne_nil_of_nameAhead? hname) hafter, hsplit]
  | case4 b c rest hcont hname ih => rw [ih (by simp) h.right_of_append]

/-- An unbroken row is slashed at most in front. -/
theorem slashed_of_isChain {cs : List Char} (h : cs.IsChain Joined) :
    slashed cs = cs ∨ slashed cs = '\\' :: cs := by
  cases cs with
  | nil => exact Or.inl slashed_nil
  | cons c cs =>
    rw [slashed, qualifyAfter, if_neg (by simp)]
    split
    · next name after hname =>
      have hsplit := append_of_nameAhead? hname
      have hafter : (name.getLast?.toList ++ after).IsChain Joined :=
        isChain_getLast?_append (hsplit ▸ h)
      rw [qualifyAfter_of_joined _ (by simpa using ne_nil_of_nameAhead? hname) hafter]
      rcases qualifyName_global name with heq | heq
      · exact Or.inl (by rw [heq, hsplit])
      · exact Or.inr (by rw [heq, List.cons_append, hsplit])
    · rw [qualifyAfter_of_joined _ (by simp) h]
      exact Or.inl rfl

/-- Backslashes in front break no name. -/
theorem isChain_of_dropBackslashes {cs : List Char}
    (h : (Text.dropBackslashes cs).IsChain Joined) : cs.IsChain Joined := by
  induction cs with
  | nil => exact .nil
  | cons c cs ih =>
    by_cases hc : c = '\\'
    · subst hc
      rw [Text.dropBackslashes_cons_backslash] at h
      exact List.isChain_cons.mpr ⟨fun _ _ _ => by decide, ih h⟩
    · rwa [Text.dropBackslashes_eq_self (by simpa using hc)] at h

/-! ### Readings that agree -/

/-- What is found in the slashed form of a text: a type where there is one, and the same type if no
name in it is broken. -/
def Kept (found found' : Option Ty) : Prop :=
  found'.isSome = found.isSome ∧ ((∀ t ∈ found, t.AllNames Unbroken) → found' = found)

/-- Two readings that fail with the same fault, or succeed with results that are related. -/
inductive Alike {α β : Type} (R : α → β → Prop) : Except Ty.Fault α → Except Ty.Fault β → Prop
  | error (fault : Ty.Fault) : Alike R (.error fault) (.error fault)
  | ok {a : α} {b : β} : R a b → Alike R (.ok a) (.ok b)

namespace Alike

variable {α β γ δ ι : Type} {R : α → β → Prop} {S : γ → δ → Prop}

/-- Readings that agree go on to do so under functions that respect it. -/
theorem map {r : Except Ty.Fault α} {s : Except Ty.Fault β} (h : Alike R r s) {f : α → γ}
    {g : β → δ} (hfg : ∀ a b, R a b → S (f a) (g b)) : Alike S (r.map f) (s.map g) := by
  cases h with
  | error fault => exact .error fault
  | ok hab => exact .ok (hfg _ _ hab)

/-- So they do under further readings. -/
theorem bind {r : Except Ty.Fault α} {s : Except Ty.Fault β} (h : Alike R r s)
    {f : α → Except Ty.Fault γ} {g : β → Except Ty.Fault δ}
    (hfg : ∀ a b, R a b → Alike S (f a) (g b)) : Alike S (r >>= f) (s >>= g) := by
  cases h with
  | error fault => exact .error fault
  | ok hab => exact hfg _ _ hab

/-- Readings that agree on each part agree on the list of parts. -/
theorem mapM {xs : List ι} {f : ι → Except Ty.Fault α} {g : ι → Except Ty.Fault β}
    (h : ∀ x ∈ xs, Alike R (f x) (g x)) : Alike (List.Forall₂ R) (xs.mapM f) (xs.mapM g) := by
  induction xs with
  | nil => exact .ok .nil
  | cons x xs ih =>
    obtain ⟨hx, hxs⟩ := List.forall_mem_cons.mp h
    rw [List.mapM_cons, List.mapM_cons]
    refine hx.bind fun a b hab => (ih hxs).bind fun as bs habs => ?_
    exact .ok (.cons hab habs)

end Alike

theorem Alike.refl {α : Type} {R : α → α → Prop} (hR : ∀ a, R a a) (r : Except Ty.Fault α) :
    Alike R r r := by
  cases r with
  | error fault => exact .error fault
  | ok a => exact .ok (hR a)

namespace Kept

theorem refl (found : Option Ty) : Kept found found :=
  ⟨rfl, fun _ => rfl⟩

theorem map {a b : Option Ty} (h : Kept a b) {f : Ty → Ty}
    (hf : ∀ t, (f t).AllNames Unbroken → t.AllNames Unbroken) : Kept (a.map f) (b.map f) := by
  obtain ⟨hsome, heq⟩ := h
  refine ⟨by simpa using hsome, fun hnames => ?_⟩
  rw [heq fun t ht => hf t (hnames (f t) (Option.mem_map_of_mem f ht))]

/-- The array of a value that may not describe a type, with a key or without one. -/
theorem arrayOf {a b c d : Option Ty} (hkey : Kept a b) (hvalue : Kept c d) :
    Kept (some (.arrayOf a (c.getD .mixed) false)) (some (.arrayOf b (d.getD .mixed) false)) := by
  refine ⟨rfl, fun hnames => ?_⟩
  have hparts : (∀ t ∈ a, t.AllNames Unbroken) ∧ ∀ t ∈ c, t.AllNames Unbroken := by
    have hall := hnames _ rfl
    cases a with
    | none =>
      refine ⟨by simp, fun t ht => ?_⟩
      rw [Option.mem_def.mp ht] at hall
      exact hall
    | some k =>
      refine ⟨fun t ht => Option.mem_some.mp ht ▸ hall.1, fun t ht => ?_⟩
      rw [Option.mem_def.mp ht] at hall
      exact hall.2
  rw [hkey.2 hparts.1, hvalue.2 hparts.2]

end Kept

/-- Readings that agree and have unbroken names only are the same. -/
theorem Alike.eq_of_kept {r s : Except Ty.Fault (Option Ty)} (h : Alike Kept r s)
    (hnames : ∀ t, r = .ok (some t) → t.AllNames Unbroken) : s = r := by
  cases h with
  | error fault => rfl
  | ok hkept => rw [hkept.2 fun t ht => hnames t (congrArg Except.ok (Option.mem_def.mp ht))]

/-! ### Words and names -/

/-- Backslashes alone stay backslashes alone. -/
theorem dropBackslashes_slashed_eq_nil {cs : List Char} :
    Text.dropBackslashes (slashed cs) = [] ↔ Text.dropBackslashes cs = [] := by
  simp only [Text.dropBackslashes, List.dropWhile_eq_nil_iff, beq_iff_eq]
  constructor
  · exact fun h c hc => h c ((slashing_slashed cs).sublist.subset hc)
  · intro h c hc
    by_contra hne
    exact hne (h c (mem_of_mem_slashed hc hne))

/-- A word or a name is read alike with and without its backslash. -/
theorem alike_wordOrName (cs : List Char) :
    Alike Kept (wordOrName cs) (wordOrName (slashed cs)) := by
  by_cases hself : slashed cs = cs
  · rw [hself]
    exact .refl Kept.refl _
  -- a keyword is not changed, so neither form is one
  have hkey : isKeyword (lowered cs) = false := Bool.eq_false_iff.mpr fun h =>
    hself (slashed_of_isReserved (by rw [isReserved_ofList, h]; simp))
  have hkey' : isKeyword (lowered (slashed cs)) = false := Bool.eq_false_iff.mpr fun h =>
    hself (slashed_eq_of_isReserved (by rw [isReserved_ofList, h]; simp))
  rw [wordOrName_of_not_isKeyword hkey, wordOrName_of_not_isKeyword hkey']
  refine .ok ?_
  simp only [dropBackslashes_slashed_eq_nil]
  split
  · exact .refl none
  · refine ⟨rfl, fun hnames => ?_⟩
    have hchain : (Text.dropBackslashes cs).IsChain Joined := by
      simpa [nameType, Ty.AllNames, Unbroken] using hnames
    rcases slashed_of_isChain (isChain_of_dropBackslashes hchain) with heq | heq
    · exact absurd heq hself
    · rw [heq, nameType, nameType, Text.dropBackslashes_cons_backslash]

/-! ### The recursion of the reader -/

/-- Every text of at most the given length, with ASCII blanks only, is read alike with its slashed
form, as one alternative. -/
def AlikeUpTo (n : Nat) : Prop :=
  ∀ cs : List Char, cs.length ≤ n → AsciiBlanks cs →
    Alike Kept (alternative cs) (alternative (slashed cs))

theorem AlikeUpTo.mono {m n : Nat} (h : AlikeUpTo n) (hmn : m ≤ n) : AlikeUpTo m :=
  fun cs hcs => h cs (hcs.trans hmn)

/-- Parts of which all are kept. -/
theorem Kept.forall₂ {found found' : List (Option Ty)} (h : List.Forall₂ Kept found found') :
    (found'.filterMap id = [] ↔ found.filterMap id = []) ∧
      ((∀ t ∈ found.filterMap id, t.AllNames Unbroken) → found' = found) := by
  induction h with
  | nil => exact ⟨Iff.rfl, fun _ => rfl⟩
  | @cons a b found found' hab _ ih =>
    obtain ⟨hsome, heq⟩ := hab
    cases a with
    | none =>
      obtain rfl : b = none := by simpa using hsome
      exact ⟨ih.1, fun hnames => by rw [ih.2 hnames]⟩
    | some t =>
      obtain ⟨u, rfl⟩ := Option.isSome_iff_exists.mp hsome
      refine ⟨by simp, fun hnames => ?_⟩
      obtain ⟨ht, hrest⟩ :=
        List.forall_mem_cons.mp (show ∀ v ∈ t :: found.filterMap id, _ from hnames)
      rw [heq fun v hv => (Option.mem_some.mp hv) ▸ ht, ih.2 hrest]

/-- What is merged agrees if the candidates do. -/
theorem Kept.mergeFound {found found' : List (Option Ty)} (h : List.Forall₂ Kept found found') :
    Kept (mergeFound found) (mergeFound found') := by
  obtain ⟨hnil, heq⟩ := Kept.forall₂ h
  rw [mergeFound_eq, mergeFound_eq]
  simp only [hnil]
  split
  · exact .refl none
  · refine ⟨rfl, fun hnames => ?_⟩
    have hall := Ty.allNames_of_merge (p := Unbroken) (by decide) (hnames _ rfl)
    rw [heq hall]

section Recursion

variable {cs : List Char}

/-- Alternatives are read alike if shorter texts are. -/
theorem alike_alternatives (hrec : AlikeUpTo cs.length) (h : AsciiBlanks cs) :
    Alike Kept (alternatives cs) (alternatives (slashed cs)) := by
  have hsplit : splitOutside '|' (slashed cs) = (splitOutside '|' cs).map slashed :=
    splitOutside_slashed (by decide) (by decide) h
  rw [alternatives_eq, alternatives_eq, hsplit, List.length_map, List.mapM_map]
  split
  · refine Alike.map (Alike.mapM fun part hpart => ?_) fun _ _ => Kept.mergeFound
    exact hrec part (length_le_of_mem_splitOutside hpart) (h.of_mem_splitOutside hpart)
  · exact hrec cs le_rfl h

/-- So is what stands behind a question mark. -/
theorem alike_optional (hrec : AlikeUpTo cs.length) (h : AsciiBlanks cs) :
    Alike Kept (optional cs) (optional (slashed cs)) := by
  have htrim := trim_slashed h
  by_cases hblank : trim cs = []
  · rw [hblank, slashed_nil] at htrim
    rw [optional_of_blank hblank, optional_of_blank htrim]
    exact .ok (.refl none)
  · have hblank' : trim (slashed cs) ≠ [] := by rwa [htrim, Ne, slashed_eq_nil]
    rw [optional_eq hblank, optional_eq hblank']
    exact (alike_alternatives hrec h).map fun _ _ hkept =>
      hkept.map fun _ => Ty.allNames_withNullable.mp

/-- So are expressions. -/
theorem alike_expression (hrec : AlikeUpTo cs.length) (h : AsciiBlanks cs) :
    Alike Kept (expression cs) (expression (slashed cs)) := by
  have htrim := trim_slashed h
  by_cases hblank : trim cs = []
  · rw [hblank, slashed_nil] at htrim
    rw [expression_of_blank hblank, expression_of_blank htrim]
    exact .ok (.refl none)
  by_cases hmark : (trim cs).head? = some '?'
  · obtain ⟨rest, hrest⟩ := List.head?_eq_some_iff.mp hmark
    rw [hrest, slashed_cons (by decide)] at htrim
    rw [expression_of_mark hrest, expression_of_mark htrim]
    have hlength : rest.length ≤ cs.length := by
      have hcons := congrArg List.length hrest
      rw [List.length_cons] at hcons
      have htrimmed := Text.length_trim_le cs
      omega
    refine alike_optional (hrec.mono hlength) (h.mono fun c hc => mem_of_mem_trim ?_)
    rw [hrest]
    exact List.mem_cons_of_mem '?' hc
  · have hblank' : trim (slashed cs) ≠ [] := by rwa [htrim, Ne, slashed_eq_nil]
    have hmark' : (trim (slashed cs)).head? ≠ some '?' := by
      rwa [htrim, Ne, head?_slashed (by decide)]
    rw [expression_of_head_ne hblank hmark, expression_of_head_ne hblank' hmark']
    exact alike_alternatives hrec h

/-- So are the arguments of an array. -/
theorem alike_arrayArguments (hrec : AlikeUpTo cs.length) (h : AsciiBlanks cs) :
    Alike (fun t u => Kept (some t) (some u)) (arrayArguments cs)
      (arrayArguments (slashed cs)) := by
  have hpart : ∀ part ∈ splitOutside ',' cs,
      Alike Kept (expression part) (expression (slashed part)) :=
    fun part hpart => alike_expression (hrec.mono (length_le_of_mem_splitOutside hpart))
      (h.of_mem_splitOutside hpart)
  have hsplit : splitOutside ',' (slashed cs) = (splitOutside ',' cs).map slashed :=
    splitOutside_slashed (by decide) (by decide) h
  cases hparts : splitOutside ',' cs with
  | nil => exact absurd (List.map_eq_nil_iff.mp hparts) (pieces_ne_nil _ _ _)
  | cons key parts =>
    rw [hparts] at hsplit hpart
    obtain ⟨hkey, hparts'⟩ := List.forall_mem_cons.mp hpart
    cases parts with
    | nil =>
      rw [arrayArguments_single hparts, arrayArguments_single hsplit]
      exact hkey.map fun _ _ hkept => Kept.arrayOf (.refl none) hkept
    | cons value parts =>
      have hvalue := hparts' value List.mem_cons_self
      rw [arrayArguments_pair hparts, arrayArguments_pair hsplit]
      exact hkey.bind fun _ _ hkey => hvalue.bind fun _ _ hvalue => .ok (hkey.arrayOf hvalue)

/-- A name has no more than backslashes in front of it. -/
theorem dropBackslashes_slashed {name : List Char} (h : ∀ c ∈ name, isNameChar c = true) :
    Text.dropBackslashes (slashed name) = Text.dropBackslashes name := by
  rcases slashed_nameChars h with heq | heq
  · rw [heq]
  · rw [heq, Text.dropBackslashes_cons_backslash]

/-! Each form that an alternative can have: the reader goes on with parts of the text, and with the
slashed forms of these parts for the slashed text. -/

section Forms

variable (hrec : ∀ n < cs.length, AlikeUpTo n) (h : AsciiBlanks cs)
include hrec h

/-- A type in parentheses is read alike. -/
theorem alike_wrapped (hwrapped : isWrapped cs = true) :
    Alike Kept (expression cs.tail.dropLast) (expression (slashed cs).tail.dropLast) := by
  obtain ⟨inner, rfl⟩ := exists_of_isWrapped hwrapped
  have hslashed : slashed ('(' :: (inner ++ [')'])) = '(' :: (slashed inner ++ [')']) := by
    rw [slashed_cons (by decide), slashed_append (by decide), slashed_nil]
  have hlt : inner.length < ('(' :: (inner ++ [')'])).length := by
    simp only [List.length_cons, List.length_append]
    omega
  rw [hslashed, List.tail_cons, List.tail_cons, List.dropLast_concat, List.dropLast_concat]
  exact alike_expression (hrec _ hlt) (h.mono fun c hc => by simp [hc])

/-- A type with a question mark in front is read alike. -/
theorem alike_marked (hmark : cs.head? = some '?') :
    Alike Kept (optional cs.tail) (optional (slashed cs).tail) := by
  obtain ⟨rest, rfl⟩ := List.head?_eq_some_iff.mp hmark
  rw [slashed_cons (by decide), List.tail_cons, List.tail_cons]
  exact alike_optional (hrec _ (by simp)) (h.mono fun c hc => List.mem_cons_of_mem '?' hc)

/-- A name with arguments is read alike. -/
theorem alike_generic {name args : List Char} (hparts : genericParts? cs = some (name, args)) :
    Alike Kept
      (if isArrayName name then (arrayArguments args).map some
        else (Ty.ofName (String.ofList (Text.dropBackslashes name)) false).map some)
      (if isArrayName (slashed name) then (arrayArguments (slashed args)).map some
        else (Ty.ofName (String.ofList (Text.dropBackslashes (slashed name))) false).map some) := by
  have hargs := length_args_lt hparts
  obtain ⟨b, -, -, hname, hcs⟩ := genericParts?_eq_some.mp hparts
  have harray : isArrayName (slashed name) = isArrayName name := by
    rw [isArrayName, isArrayName, dropBackslashes_slashed hname]
  rw [harray, dropBackslashes_slashed hname]
  split
  · refine (alike_arrayArguments (hrec _ hargs) (h.mono fun c hc => ?_)).map fun _ _ h => h
    simp [hcs, hc]
  · exact .refl Kept.refl _

/-- A type with brackets behind it is read alike. -/
theorem alike_bracketed (hbrackets : endsWithBrackets cs = true) :
    Alike Kept
      ((expression cs.dropLast.dropLast).map fun value => some (.array (value.getD .mixed) false))
      ((expression (slashed cs).dropLast.dropLast).map fun value =>
        some (.array (value.getD .mixed) false)) := by
  obtain ⟨xs, rfl⟩ := endsWithBrackets_iff.mp hbrackets
  have hdrop : ∀ ys : List Char, (ys ++ ['[', ']']).dropLast.dropLast = ys := fun ys => by simp
  rw [slashed_brackets, hdrop, hdrop]
  have hxs := alike_expression (hrec xs.length (by simp))
    (h.mono fun c hc => List.mem_append_left _ hc)
  exact hxs.map fun _ _ hkept => Kept.arrayOf (.refl none) hkept

end Forms

/-- One alternative with its first character left in place. -/
theorem alternative_eq_of_trim {m : List Char} (h : trim cs = m) (hne : m ≠ []) : alternative cs =
    if isWrapped m then expression m.tail.dropLast
    else if 1 < (splitOutside '&' m).length then .ok (some .mixed)
    else if m.head? = some '?' then optional m.tail
    else
      match wordType? m with
      | some t => .ok (some t)
      | none =>
        match genericParts? m with
        | some (name, args) =>
          if isArrayName name then (arrayArguments args).map some
          else (Ty.ofName (String.ofList (Text.dropBackslashes name)) false).map some
        | none =>
          if endsWithBrackets m then
            (expression m.dropLast.dropLast).map fun value =>
              some (.array (value.getD .mixed) false)
          else wordOrName m := by
  obtain ⟨c, body, rfl⟩ := List.exists_cons_of_ne_nil hne
  simp only [List.tail_cons, List.head?_cons, Option.some.injEq]
  exact alternative_eq h

/-- One alternative is read alike, whichever of the forms it has. -/
theorem alike_alternative (hrec : ∀ n < cs.length, AlikeUpTo n) (h : AsciiBlanks cs) :
    Alike Kept (alternative cs) (alternative (slashed cs)) := by
  have htrim := trim_slashed h
  by_cases hblank : trim cs = []
  · rw [hblank, slashed_nil] at htrim
    rw [alternative_of_blank hblank, alternative_of_blank htrim]
    exact .ok (.refl none)
  have hm : AsciiBlanks (trim cs) := h.mono fun c hc => mem_of_mem_trim hc
  have hrec' : ∀ n < (trim cs).length, AlikeUpTo n := fun n hn =>
    hrec n (hn.trans_le (Text.length_trim_le cs))
  have hcount : (splitOutside '&' (slashed (trim cs))).length
      = (splitOutside '&' (trim cs)).length := by
    rw [length_splitOutside, length_splitOutside, pieces_slashed (by decide) (by decide),
      List.length_map]
  rw [alternative_eq_of_trim rfl hblank,
    alternative_eq_of_trim htrim (by rwa [Ne, slashed_eq_nil])]
  -- the reader makes the same choice for both forms
  simp only [isWrapped_slashed, hcount, head?_slashed (d := '?') (by decide), wordType?_slashed,
    genericParts?_slashed hm, endsWithBrackets_slashed]
  split
  · next hwrapped => exact alike_wrapped hrec' hm hwrapped
  split
  · exact .ok (.refl _)
  split
  · next hmark => exact alike_marked hrec' hm hmark
  cases wordType? (trim cs) with
  | some t => exact .ok (.refl _)
  | none =>
    cases hparts : genericParts? (trim cs) with
    | some p => exact alike_generic hrec' hm hparts
    | none =>
      dsimp only [Option.map_none]
      split
      · next hbrackets => exact alike_bracketed hrec' hm hbrackets
      · exact alike_wordOrName (trim cs)

end Recursion

/-- Texts of all lengths are read alike, by induction on the length. -/
theorem alikeUpTo (n : Nat) : AlikeUpTo n := by
  induction n using Nat.strongRecOn with
  | _ n ih => exact fun cs hcs h => alike_alternative (fun m hm => ih m (by omega)) h

/-- In the global scope a text whose blanks are those of ASCII is resolved to what is read from it,
if no name begins inside a name of the type that is read. -/
theorem resolve_global {text : String} (hblanks : AsciiBlanks text.toList)
    (hnames : ∀ t, parse text = .ok (some t) → t.AllNames Unbroken) :
    resolve {} text = parse text := by
  have halike : Alike Kept (parse text) (resolve {} text) := by
    rw [resolve, parse, parse, qualify, String.toList_ofList]
    exact alike_expression (alikeUpTo _) hblanks
  exact halike.eq_of_kept hnames

/-- A name with arguments, an array and blanks between them. -/
theorem resolve_global_arguments :
    AsciiBlanks "Set<non-empty-string> | ?int[]".toList ∧
    resolve {} "Set<non-empty-string> | ?int[]" =
      .ok (some (.union [.named "Set" false, .array (.scalar .int false) false] true)) := by
  have hset : Denotes .alternative "Set<non-empty-string> ".toList (.named "Set" false) := by
    have hargs : ∀ c ∈ "non-empty-string".toList, (!isOpener c && !isCloser c) = true :=
      List.all_eq_true.mp (by decide)
    refine @Denotes.spacedAlternative [] "Set<non-empty-string>".toList [' '] _ .nil (by decide)
      (.plain (.bare (@Denotes.generic "Set".toList "non-empty-string".toList (by decide)
        (by decide) (.of_forall fun c hc => by simpa using hargs c hc))))
  have hints : Denotes .alternative " ?int[]".toList (.array (.scalar .int false) true) :=
    @Denotes.spacedAlternative [' '] "?int[]".toList [] _ (by decide) .nil
      (.optional (.brackets (@Denotes.bare "int".toList _ (.scalar (by decide)))))
  have hall := @Denotes.alternatives
    [("Set<non-empty-string> ".toList, _), (" ?int[]".toList, _)] (by simp)
    (by simp only [List.forall_mem_cons]; exact ⟨hset, hints, by simp⟩)
  have hparse : parse "Set<non-empty-string> | ?int[]" =
      .ok (some (.union [.named "Set" false, .array (.scalar .int false) false] true)) :=
    hall.expression_eq
  have hblanks : AsciiBlanks "Set<non-empty-string> | ?int[]".toList := by decide
  refine ⟨hblanks, (resolve_global hblanks fun t ht => ?_).trans hparse⟩
  rw [hparse] at ht
  obtain rfl := Option.some.inj (Except.ok.inj ht)
  simp only [Ty.AllNames, Ty.AllNamesIn]
  decide

/-- The name of a class that does not begin with a backslash gets one. -/
theorem slashed_of_isClassName {cs : List Char} (h : IsClassName cs)
    (hstart : cs.head?.any startsName = true) : slashed cs = '\\' :: cs := by
  have hhead : cs.head? ≠ some '\\' := fun heq => by
    rw [heq] at hstart
    exact absurd hstart (by decide)
  rw [slashed, qualifyAfter_nameChars _ h.chars, if_pos hstart, qualifyName, h.notReserved,
    qualify_global (by simpa using hhead), String.toList_ofList, Text.dropBackslashes_eq_self hhead]
  simp [hhead]

/-- A text that fits nothing else is taken as a word or a name. -/
theorem expression_eq_wordOrName {cs : List Char} (htrim : trim cs = cs) (hne : cs ≠ [])
    (hmark : cs.head? ≠ some '?') (hwrapped : isWrapped cs = false)
    (hbar : (splitOutside '|' cs).length = 1) (hand : (splitOutside '&' cs).length = 1)
    (hword : wordType? cs = none) (hgeneric : genericParts? cs = none)
    (hbrackets : endsWithBrackets cs = false) : expression cs = wordOrName cs := by
  rw [expression_of_head_ne (by rwa [htrim]) (by rwa [htrim]), alternatives_eq, hbar,
    if_neg (by decide), alternative_eq_of_trim htrim hne, hwrapped, hand, hword, hgeneric,
      hbrackets]
  simp [hmark]

/-- A name with hyphens is read as one name, but qualified as the names between its hyphens. -/
theorem hyphen_splits_name :
    parse "non-empty-string" = .ok (some (.named "non-empty-string" false)) ∧
    resolve {} "non-empty-string" = .ok (some (.named "non-\\empty-string" false)) := by
  have hslashed : slashed ("non".toList ++ '-' :: ("empty".toList ++ '-' :: "string".toList))
      = "\\non-\\empty-string".toList := by
    rw [slashed_append (by decide), slashed_append (by decide),
      slashed_of_isClassName (by decide) (by decide),
        slashed_of_isClassName (by decide) (by decide),
      slashed_of_isReserved (by decide)]
    rfl
  constructor
  · refine (expression_eq_wordOrName (by decide) (by decide) (by decide) (by decide) (by decide)
      (by decide) (by decide) (by decide) (by decide)).trans (by decide)
  · rw [resolve, parse, qualify, String.toList_ofList]
    refine (congrArg expression hslashed).trans ?_
    refine (expression_eq_wordOrName (by decide) (by decide) (by decide) (by decide) (by decide)
      (by decide) (by decide) (by decide) (by decide)).trans (by decide)

end TypeFacts.TypeText
