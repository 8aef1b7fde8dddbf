import TypeFacts.Proofs.TypeText.Parts

/-!
# The names in what is read

An alternative may give a name of its own; all else that the reader does is putting results
together. So an expression is read, with names that meet a condition, exactly if each alternative
that is reached gives no name, or one that is not empty and meets the condition (`reads_iff`). Hence

* only an empty name makes the reading fail (`succeeds_iff`), and
* the names in a type that is read are the names that the alternatives give, `null` and `mixed`
  apart (`mem_names_iff`).
-/

namespace TypeFacts

/-! ### Names in a type -/

namespace Ty

mutual

/-- The names in a descriptor, at any depth. -/
def names : Ty → List String
  | scalar _ _ => []
  | named s _ => [s]
  | array v _ => v.names
  | keyed k v _ => k.names ++ v.names
  | union ms _ => namesIn ms

/-- The names in some descriptors. -/
def namesIn : List Ty → List String
  | [] => []
  | t :: ts => t.names ++ namesIn ts

end

mutual

theorem allNames_iff_forall_mem {p : String → Prop} :
    ∀ t : Ty, t.AllNames p ↔ ∀ s ∈ t.names, p s
  | scalar _ _ => by simp [AllNames, names]
  | named _ _ => by simp [AllNames, names]
  | array v _ => allNames_iff_forall_mem v
  | keyed k v _ => by
    rw [AllNames, names, List.forall_mem_append, allNames_iff_forall_mem k,
      allNames_iff_forall_mem v]
  | union ms _ => allNamesIn_iff_forall_mem ms

theorem allNamesIn_iff_forall_mem {p : String → Prop} :
    ∀ ts : List Ty, AllNamesIn p ts ↔ ∀ s ∈ namesIn ts, p s
  | [] => by simp [AllNamesIn, namesIn]
  | t :: ts => by
    rw [AllNamesIn, namesIn, List.forall_mem_append, allNames_iff_forall_mem t,
      allNamesIn_iff_forall_mem ts]

end

end Ty

namespace TypeText

open Text (trim)

/-! ### What is found in a text -/

/-- The reading succeeds, and the names in what it finds meet the condition. -/
def Reads (p : String → Prop) (r : Except Ty.Fault (Option Ty)) : Prop :=
  ∃ found, r = .ok found ∧ ∀ t ∈ found, t.AllNames p

section Reads

variable {p : String → Prop}

theorem reads_ok {found : Option Ty} : Reads p (.ok found) ↔ ∀ t ∈ found, t.AllNames p := by
  simp [Reads]

theorem not_reads_error {e : Ty.Fault} : ¬ Reads p (.error e) := by
  simp [Reads]

/-- Changing what is found does not change whether its names meet the condition. -/
theorem reads_map {r : Except Ty.Fault (Option Ty)} {f : Option Ty → Option Ty}
    (hf : ∀ o, (∀ t ∈ f o, t.AllNames p) ↔ ∀ t ∈ o, t.AllNames p) :
    Reads p (r.map f) ↔ Reads p r := by
  cases r with
  | error e => exact iff_of_false not_reads_error not_reads_error
  | ok o => exact reads_ok.trans ((hf o).trans reads_ok.symm)

theorem reads_map_nullable {r : Except Ty.Fault (Option Ty)} :
    Reads p (r.map fun t => t.map (·.withNullable true)) ↔ Reads p r :=
  reads_map fun o => by cases o <;> simp

section Merge

variable (hnull : p "null")
include hnull

theorem allNames_mergeFound {found : List (Option Ty)} :
    (∀ t ∈ mergeFound found, t.AllNames p) ↔ ∀ o ∈ found, ∀ t ∈ o, t.AllNames p := by
  have hfound : (∀ t ∈ found.filterMap id, t.AllNames p) ↔ ∀ o ∈ found, ∀ t ∈ o, t.AllNames p := by
    simp only [List.mem_filterMap, id, Option.mem_def]
    exact ⟨fun h o ho t ht => h t ⟨o, ho, ht⟩, fun h t ⟨o, ho, ht⟩ => h o ho t ht⟩
  rw [← hfound, mergeFound_eq]
  split_ifs with hnil
  · rw [hnil]
    exact iff_of_true (fun t ht => by cases ht) fun t ht => by cases ht
  · refine ⟨fun h => Ty.allNames_of_merge hnull (h _ rfl), fun h t ht => ?_⟩
    rw [← Option.mem_some.mp ht]
    exact Ty.allNames_merge hnil hnull h

/-- Names are read in alternatives exactly if they are in each of them. -/
theorem reads_alternatives_iff {cs : List Char} :
    Reads p (alternatives cs) ↔ ∀ a ∈ splitOutside '|' cs, Reads p (alternative a) := by
  have hrow : (∃ found, (splitOutside '|' cs).mapM alternative = .ok found ∧
      ∀ o ∈ found, ∀ t ∈ o, t.AllNames p) ↔
      ∀ a ∈ splitOutside '|' cs, Reads p (alternative a) := exists_mapM_iff
  rw [alternatives_eq_mergeFound, ← hrow]
  cases (splitOutside '|' cs).mapM alternative with
  | error e => simp [Reads, Except.map]
  | ok found =>
    refine reads_ok.trans ((allNames_mergeFound hnull).trans ?_)
    simp

/-- An expression is read exactly if its alternatives are. -/
theorem reads_expression_iff {cs : List Char} :
    Reads p (expression cs) ↔ ∀ a ∈ alternativesOf cs, Reads p (alternative a) := by
  by_cases hmark : (trim cs).head? = some '?'
  · obtain ⟨rest, hrest⟩ := List.head?_eq_some_iff.mp hmark
    rw [expression_of_mark hrest, optional_eq_alternatives, reads_map_nullable,
      alternativesOf_of_mark hrest, reads_alternatives_iff hnull]
  · rw [expression_eq_alternatives hmark, alternativesOf_of_head_ne hmark,
      reads_alternatives_iff hnull]

variable (hmixed : p "mixed")
include hmixed

omit hnull in
theorem allNames_getD_mixed {o : Option Ty} :
    (o.getD .mixed).AllNames p ↔ ∀ t ∈ o, t.AllNames p := by
  cases o with
  | none => exact iff_of_true hmixed fun t ht => by cases ht
  | some t => simp

theorem allNames_of_wordType? {cs : List Char} {t : Ty} (h : wordType? cs = some t) :
    t.AllNames p := by
  rw [wordType?_eq] at h
  split at h
  · rw [← Option.some.inj h]
    trivial
  · split_ifs at h
    · rw [← Option.some.inj h]
      exact hnull
    · rw [← Option.some.inj h]
      exact hmixed

omit hnull in
theorem allNames_arrayOf {key value : Option Ty} :
    (Ty.arrayOf key (value.getD .mixed) false).AllNames p ↔
      (∀ t ∈ key, t.AllNames p) ∧ ∀ t ∈ value, t.AllNames p := by
  rw [← allNames_getD_mixed hmixed (o := value)]
  cases key with
  | none => simp [Ty.arrayOf, Ty.AllNames]
  | some k => simp [Ty.arrayOf, Ty.AllNames]

omit hnull in
/-- Of the arguments of an array, the first two are read. -/
theorem reads_arrayArguments_iff {args : List Char} :
    Reads p ((arrayArguments args).map some) ↔
      ∀ e ∈ (splitOutside ',' args).take 2, Reads p (expression e) := by
  cases hparts : splitOutside ',' args with
  | nil => exact absurd (List.map_eq_nil_iff.mp hparts) (pieces_ne_nil _ _ _)
  | cons key parts =>
    cases parts with
    | nil =>
      rw [arrayArguments_single hparts, List.take_of_length_le (by simp), List.forall_mem_singleton]
      cases expression key with
      | error e => exact iff_of_false not_reads_error not_reads_error
      | ok v =>
        refine reads_ok.trans (Iff.trans ?_ reads_ok.symm)
        simpa [Ty.AllNames] using allNames_getD_mixed hmixed
    | cons value parts =>
      have htake : (key :: value :: parts).take 2 = [key, value] := rfl
      rw [arrayArguments_pair hparts, htake, List.forall_mem_cons, List.forall_mem_singleton]
      cases expression key with
      | error e => exact iff_of_false not_reads_error fun h => not_reads_error h.1
      | ok k =>
        cases expression value with
        | error e => exact iff_of_false not_reads_error fun h => not_reads_error h.2
        | ok v =>
          refine reads_ok.trans (Iff.trans ?_ (and_congr reads_ok.symm reads_ok.symm))
          simpa using allNames_arrayOf hmixed

omit hnull hmixed in
theorem reads_ofName {name : String} :
    Reads p ((Ty.ofName name false).map some) ↔ name ≠ "" ∧ p name := by
  unfold Ty.ofName
  split_ifs with hempty
  · exact iff_of_false not_reads_error fun h => h.1 (String.isEmpty_iff.mp hempty)
  · have hne : name ≠ "" := fun h => hempty (String.isEmpty_iff.mpr h)
    exact reads_ok.trans (by simp [Ty.AllNames, hne])

omit hnull hmixed in
/-- A word has no name, and a name has itself. -/
theorem reads_wordOrName {cs : List Char} :
    Reads p (wordOrName cs) ↔ ∀ s ∈ (Form.other cs).name?, s ≠ "" ∧ p s := by
  by_cases hkey : isKeyword (lowered cs) = true
  · rw [wordOrName, ← lowered, if_pos hkey, reads_ofName]
    simp [Form.name?, hkey]
  · rw [wordOrName_of_not_isKeyword (Bool.eq_false_iff.mpr hkey), reads_ok]
    by_cases hnil : Text.dropBackslashes cs = []
    · simp [Form.name?, hkey, hnil]
    · have hne : String.ofList (Text.dropBackslashes cs) ≠ "" := by
        simpa [String.ext_iff] using hnil
      simp [Form.name?, hkey, hnil, nameType, Ty.AllNames, hne]

/-- An alternative is read exactly if its own name, where it gives one, is not empty and meets the
condition, and the alternatives inside it are read. -/
theorem reads_alternative_iff {a : List Char} :
    Reads p (alternative a) ↔ (∀ s ∈ (form a).name?, s ≠ "" ∧ p s) ∧
      ∀ b ∈ (form a).parts, Reads p (alternative b) := by
  rw [alternative_eq_read]
  cases hform : form a with
  | blank => simp [Form.read, Form.name?, Form.parts, reads_ok]
  | group inner => simp [Form.read, Form.name?, Form.parts, reads_expression_iff hnull]
  | intersection =>
    simp [Form.read, Form.name?, Form.parts, reads_ok, Ty.mixed, Ty.AllNames, hmixed]
  | marked rest =>
    rw [Form.read, optional_eq_alternatives, reads_map_nullable, reads_alternatives_iff hnull]
    simp [Form.name?, Form.parts]
  | word t =>
    have hspelled := spelled_form a
    rw [hform] at hspelled
    cases hspelled with
    | word hword =>
      simp [Form.read, Form.name?, Form.parts, reads_ok,
        allNames_of_wordType? hnull hmixed hword]
  | generic name args =>
    by_cases harray : isArrayName name = true
    · rw [Form.read, if_pos harray, reads_arrayArguments_iff hmixed]
      simp only [reads_expression_iff hnull, Form.name?, Form.parts, harray, if_true,
        List.forall_mem_flatMap]
      exact (and_iff_right fun s hs => by cases hs).symm
    · rw [Form.read, if_neg harray, reads_ofName]
      simp [Form.name?, Form.parts, harray]
  | elements inner =>
    have hread : Reads p (Form.elements inner).read ↔ Reads p (expression inner) :=
      reads_map fun o => by simpa [Ty.AllNames] using allNames_getD_mixed hmixed
    rw [hread, reads_expression_iff hnull]
    simp [Form.name?, Form.parts]
  | other cs => simpa [Form.read, Form.parts] using reads_wordOrName

/-- The reading of an expression succeeds with names that meet a condition exactly if each
alternative that is reached gives such a name or none. -/
theorem reads_iff {cs : List Char} :
    Reads p (expression cs) ↔ ∀ a, Reached cs a → ∀ s ∈ (form a).name?, s ≠ "" ∧ p s := by
  constructor
  · intro h a ha
    have hread : Reads p (alternative a) := by
      induction ha with
      | outer ha => exact (reads_expression_iff hnull).mp h _ ha
      | inner _ hb ih => exact ((reads_alternative_iff hnull hmixed).mp ih).2 _ hb
    exact ((reads_alternative_iff hnull hmixed).mp hread).1
  · intro h
    -- by induction on the length: what is inside an alternative is shorter than it
    have hread : ∀ n a, a.length < n → Reached cs a → Reads p (alternative a) := by
      intro n
      induction n with
      | zero => exact fun a hlt => absurd hlt (Nat.not_lt_zero _)
      | succ n ih =>
        intro a hlt ha
        refine (reads_alternative_iff hnull hmixed).mpr ⟨h a ha, fun b hb => ?_⟩
        obtain ⟨inner, hinner, -, hshorter⟩ := exists_of_mem_parts hb
        have hlength := hinner.length_le
        exact ih b (by omega) (.inner ha hb)
    exact (reads_expression_iff hnull).mpr fun a ha => hread _ a (Nat.lt_succ_self _) (.outer ha)

end Merge

end Reads

/-- The reading succeeds exactly if no alternative that is reached gives an empty name. -/
theorem succeeds_iff {cs : List Char} :
    (∃ found, expression cs = .ok found) ↔ ∀ a, Reached cs a → (form a).name? ≠ some "" := by
  have hreads : (∃ found, expression cs = .ok found) ↔ Reads (fun _ => True) (expression cs) :=
    exists_congr fun found => by simp [Ty.allNames_iff_forall_mem]
  rw [hreads, reads_iff trivial trivial]
  refine forall₂_congr fun a _ => ⟨fun h hempty => (h "" hempty).1 rfl, fun h s hs => ⟨?_, trivial⟩⟩
  rintro rfl
  exact h hs

/-- The names in a type that is read are those that the alternatives give. -/
theorem mem_names_iff {cs : List Char} {t : Ty} (h : expression cs = .ok (some t)) {name : String}
    (hnull : name ≠ "null") (hmixed : name ≠ "mixed") :
    name ∈ t.names ↔ ∃ a, Reached cs a ∧ (form a).name? = some name := by
  -- the name does not occur exactly if the text is read with names that differ from it
  have hnonempty := succeeds_iff.mp ⟨_, h⟩
  have hother : Reads (· ≠ name) (expression cs) ↔ _ := reads_iff hnull.symm hmixed.symm
  rw [h, reads_ok] at hother
  have hnot : name ∉ t.names ↔ ∀ s ∈ t.names, s ≠ name :=
    ⟨fun hname s hs heq => hname (heq ▸ hs), fun hall hname => hall name hname rfl⟩
  rw [← not_iff_not, hnot, ← Ty.allNames_iff_forall_mem]
  refine Iff.trans (by simp) (hother.trans ?_)
  constructor
  · rintro hall ⟨a, ha, hname⟩
    exact (hall a ha name hname).2 rfl
  · intro hall a ha s hs
    refine ⟨?_, ?_⟩
    · rintro rfl
      exact hnonempty a ha hs
    · rintro rfl
      exact hall ⟨a, ha, hs⟩

end TypeText

end TypeFacts
