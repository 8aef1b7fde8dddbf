import Mathlib.Data.Finset.Card
import Mathlib.Data.Finset.Union
import TypeFacts.Proofs.Ty.Stored

/-!
# Merging as a join

What a descriptor stands for is a set of alternatives (`Ty.alternatives`) and whether `null` is
allowed besides. These two determine the descriptor, unless it is a union with the null type among
its members (`Ty.eq_of_alternatives_eq`).

* Candidates that are not all equal merge to a descriptor that stands for all their alternatives and
  allows `null` where one of them does (`Ty.collects_merge`). Together with the candidates that are
  all equal, this says all about what merging gives (`Ty.merge_stands_for_all`).
* So the order, the grouping and the repetition of candidates do not count, and `null` among them
  becomes the flag (`Ty.merge_is_join`).

All this holds of every descriptor that can be built, also of unions with the null type among their
members.
-/

namespace TypeFacts.Ty

/-! ### What a descriptor stands for -/

/-- The types other than `null` that a descriptor stands for, without a flag of their own. -/
def alternatives : Ty → Finset Ty
  | union ms _ => ms.toFinset.filter fun m => m.isNull = false
  | t => if t.isNull then ∅ else {t.withNullable false}

/-- The types other than `null` that some candidate stands for. -/
def allAlternatives (ts : List Ty) : Finset Ty :=
  ts.toFinset.biUnion alternatives

/-- The descriptor is, or has as a member, the null type. -/
def HasNull (t : Ty) : Prop :=
  ∃ m ∈ t.members, m.isNull = true

/-- The descriptor is no union with the null type among its members. -/
def NullFree (t : Ty) : Prop :=
  t.isUnion = true → ¬t.HasNull

/-- All candidates are equal. -/
abbrev Uniform (ts : List Ty) : Prop :=
  ∀ s ∈ ts, ∀ t ∈ ts, s = t

variable {s t u : Ty} {ts : List Ty}

/-- An alternative of some types is one of one of them. -/
theorem mem_allAlternatives : u ∈ allAlternatives ts ↔ ∃ t ∈ ts, u ∈ t.alternatives := by
  simp [allAlternatives]

/-- Null has no alternatives. -/
theorem alternatives_of_isNull (h : t.isNull = true) : t.alternatives = ∅ := by
  cases t with
  | named s n => exact if_pos h
  | _ => cases h

/-- A type that is neither a union nor null stands for itself, without its flag. -/
theorem alternatives_of_single (hu : t.isUnion = false) (hn : t.isNull = false) :
    t.alternatives = {t.withNullable false} := by
  cases t with
  | union ms n => cases hu
  | _ => simp [alternatives, hn]

/-- The flag does not count among the alternatives. -/
theorem alternatives_withNullable (t : Ty) (n : Bool) :
    (t.withNullable n).alternatives = t.alternatives := by
  cases t <;> simp [withNullable, alternatives, isNull]

theorem hasNull_withNullable (t : Ty) (n : Bool) : (t.withNullable n).HasNull ↔ t.HasNull := by
  cases t <;> simp [HasNull, withNullable, members, isNull]

theorem nullFree_withNullable (t : Ty) (n : Bool) : (t.withNullable n).NullFree ↔ t.NullFree := by
  simp only [NullFree, isUnion_withNullable, hasNull_withNullable]

/-- Only unions can have null among their members. -/
theorem nullFree_of_single (h : t.isUnion = false) : t.NullFree := by
  intro hunion
  rw [h] at hunion
  cases hunion

theorem hasNull_of_isNull (h : t.isNull = true) : t.HasNull := by
  cases t with
  | named s n => exact ⟨_, List.mem_singleton_self _, h⟩
  | _ => cases h

/-- What every alternative of a valid descriptor is like. -/
structure Plain (u : Ty) : Prop where
  single : u.isUnion = false
  unflagged : u.nullable = false
  notNull : u.isNull = false
  valid : u.Valid

/-- A plain type is its only alternative. -/
theorem Plain.alternatives_eq (h : u.Plain) : u.alternatives = {u} := by
  rw [alternatives_of_single h.single h.notNull, withNullable_eq_self h.unflagged]

/-- Changing the flag keeps a type valid. -/
theorem Valid.withNullable (h : t.Valid) (n : Bool) : (t.withNullable n).Valid := by
  cases h with
  | scalar k _ => exact .scalar k n
  | named _ hs => exact .named n hs
  | array _ hv => exact .array n hv
  | keyed _ hk hv => exact .keyed n hk hv
  | union _ hlen hinc hms hvalid => exact .union n hlen hinc hms hvalid

/-- The alternatives of a valid type are plain. -/
theorem Valid.plain (h : t.Valid) (hu : u ∈ t.alternatives) : u.Plain := by
  cases hunion : t.isUnion with
  | true =>
    obtain ⟨ms, n, rfl⟩ := eq_union_of_isUnion hunion
    obtain ⟨hmem, hnull⟩ := Finset.mem_filter.mp hu
    have hm : u ∈ ms := List.mem_toFinset.mp hmem
    cases h with
    | union _ _ _ hms hvalid => exact ⟨(hms u hm).1, (hms u hm).2, hnull, hvalid u hm⟩
  | false =>
    cases hnull : t.isNull with
    | true => simp [alternatives_of_isNull hnull] at hu
    | false =>
      rw [alternatives_of_single hunion hnull, Finset.mem_singleton] at hu
      subst hu
      exact ⟨by simpa using hunion, by simp, by simpa using hnull, h.withNullable false⟩

/-- What a valid descriptor stands for, by its members. -/
theorem Valid.mem_alternatives (h : t.Valid) :
    u ∈ t.alternatives ↔ ∃ m ∈ t.members, m.isNull = false ∧ m.withNullable false = u := by
  cases hunion : t.isUnion with
  | true =>
    obtain ⟨ms, n, rfl⟩ := eq_union_of_isUnion hunion
    cases h with
    | union _ _ _ hms _ =>
      have hclear : ∀ m ∈ ms, m.withNullable false = m := fun m hm =>
        withNullable_eq_self (hms m hm).2
      simp only [alternatives, members, Finset.mem_filter, List.mem_toFinset]
      constructor
      · rintro ⟨hu, hnull⟩
        exact ⟨u, hu, hnull, hclear u hu⟩
      · rintro ⟨m, hm, hnull, rfl⟩
        rw [hclear m hm]
        exact ⟨hm, hnull⟩
  | false =>
    rw [members_of_not_isUnion hunion]
    cases hnull : t.isNull with
    | true => simp [alternatives_of_isNull hnull, hnull]
    | false =>
      rw [alternatives_of_single hunion hnull, Finset.mem_singleton]
      simp only [List.mem_singleton, exists_eq_left, hnull, true_and]
      exact eq_comm

/-- The alternatives that are collected from a valid candidate are those that it stands for. -/
theorem Valid.mem_plainAlternatives (h : t.Valid) :
    u ∈ plainAlternatives [t] ↔ u ∈ t.alternatives := by
  rw [h.mem_alternatives]
  simp [plainAlternatives, and_assoc]

/-- What merging collects are the alternatives of the candidates. -/
theorem mem_plainAlternatives_iff (h : ∀ t ∈ ts, t.Valid) :
    u ∈ plainAlternatives ts ↔ u ∈ allAlternatives ts := by
  rw [mem_plainAlternatives, mem_allAlternatives]
  exact exists_congr fun t => and_congr_right fun ht => (h t ht).mem_plainAlternatives

/-! ### Alternatives and flag determine the descriptor -/

/-- A union that does not have the null type among its members stands for these. -/
theorem NullFree.alternatives_union {ms : List Ty} {n : Bool} (h : (union ms n).NullFree) :
    (union ms n).alternatives = ms.toFinset := by
  refine Finset.filter_eq_self.mpr fun m hm => ?_
  cases hnull : m.isNull with
  | false => rfl
  | true => exact absurd ⟨m, List.mem_toFinset.mp hm, hnull⟩ (h rfl)

/-- A descriptor is a union exactly if it stands for several alternatives. -/
theorem isUnion_iff_card (h : t.Valid) (hfree : t.NullFree) :
    t.isUnion = true ↔ 2 ≤ t.alternatives.card := by
  cases hunion : t.isUnion with
  | true =>
    obtain ⟨ms, n, rfl⟩ := eq_union_of_isUnion hunion
    cases h with
    | union _ hlen hinc _ _ =>
      rw [hfree.alternatives_union, List.toFinset_card_of_nodup hinc.nodup]
      simpa using hlen
  | false =>
    cases hnull : t.isNull with
    | true => simp [alternatives_of_isNull hnull]
    | false => simp [alternatives_of_single hunion hnull]

/-- A descriptor that stands for nothing is the null type: the members of a union are different, so
not all of them are the null type. -/
theorem Valid.isNull_of_alternatives_eq_empty (h : t.Valid) (hempty : t.alternatives = ∅) :
    t.isNull = true := by
  cases hunion : t.isUnion with
  | false =>
    cases hnull : t.isNull with
    | true => rfl
    | false => simp [alternatives_of_single hunion hnull] at hempty
  | true =>
    obtain ⟨ms, n, rfl⟩ := eq_union_of_isUnion hunion
    cases h with
    | union _ hlen hinc hms _ =>
      have hnull : ∀ m ∈ ms, m = Ty.named "null" false := by
        intro m hm
        have hm' : m.isNull = true := by
          by_contra hne
          have hmem : m ∈ (Ty.union ms n).alternatives :=
            Finset.mem_filter.mpr ⟨List.mem_toFinset.mpr hm, by simpa using hne⟩
          simp [hempty] at hmem
        rw [← withNullable_eq_self (hms m hm).2, ← withNullable_withNullable m true,
          withNullable_true_of_isNull hm']
        rfl
      match ms, hlen, hinc.nodup, hnull with
      | a :: b :: _, _, hnodup, hnull =>
        have hab : a = b := (hnull a (by simp)).trans (hnull b (by simp)).symm
        simp [hab] at hnodup

/-- Where candidates stand for nothing, each of them is the null type. -/
theorem isNull_of_allAlternatives_eq_empty (hts : ∀ t ∈ ts, t.Valid) (h : allAlternatives ts = ∅)
    (hs : s ∈ ts) : s.isNull = true := by
  refine (hts s hs).isNull_of_alternatives_eq_empty
    (Finset.eq_empty_of_forall_notMem fun u hu => ?_)
  have hmem := mem_allAlternatives.mpr ⟨s, hs, hu⟩
  simp [h] at hmem

/-- Valid types without null as a member are the same if alternatives and flags are. -/
theorem eq_of_alternatives_eq (hs : s.Valid) (ht : t.Valid) (hsfree : s.NullFree)
    (htfree : t.NullFree) (halt : s.alternatives = t.alternatives)
    (hflag : s.nullable = t.nullable) :
    s = t := by
  have hunion : s.isUnion = true ↔ t.isUnion = true := by
    rw [isUnion_iff_card hs hsfree, isUnion_iff_card ht htfree, halt]
  cases hsu : s.isUnion with
  | true =>
    obtain ⟨ms, n, rfl⟩ := eq_union_of_isUnion hsu
    obtain ⟨ms', n', rfl⟩ := eq_union_of_isUnion (hunion.mp hsu)
    rw [hsfree.alternatives_union, htfree.alternatives_union] at halt
    cases hs with
    | union _ _ hinc _ _ =>
      cases ht with
      | union _ _ hinc' _ _ =>
        have hms : ms = ms' := hinc.eq_of_mem_iff hinc' fun m => by
          rw [← List.mem_toFinset, halt, List.mem_toFinset]
        have hn : n = n' := hflag
        rw [hms, hn]
  | false =>
    have htu : t.isUnion = false := by
      rw [hsu] at hunion
      simpa using hunion
    have hclear : s.withNullable s.nullable = t.withNullable s.nullable := by
      cases hsn : s.isNull with
      | true =>
        have htn : t.isNull = true :=
          ht.isNull_of_alternatives_eq_empty (halt ▸ alternatives_of_isNull hsn)
        rw [← withNullable_withNullable s true, ← withNullable_withNullable t true,
          withNullable_true_of_isNull hsn, withNullable_true_of_isNull htn]
      | false =>
        rw [alternatives_of_single hsu hsn] at halt
        cases htn : t.isNull with
        | true => simp [alternatives_of_isNull htn] at halt
        | false =>
          rw [alternatives_of_single htu htn, Finset.singleton_inj] at halt
          rw [← withNullable_withNullable s false, halt, withNullable_withNullable]
    rwa [withNullable_nullable, hflag, withNullable_nullable] at hclear

/-! ### Candidates that are not all equal -/

/-- The descriptor stands for all that the candidates stand for, and allows `null` where one of
them does. -/
structure Collects (ts : List Ty) (t : Ty) : Prop where
  valid : t.Valid
  nullFree : t.NullFree
  alternatives_eq : t.alternatives = allAlternatives ts
  nullable_iff : t.nullable = true ↔ ∃ s ∈ ts, s.nullable = true ∨ s.HasNull

/-- Candidates allow null if one has the flag or null among its members. -/
theorem allowsNull_iff : allowsNull ts = true ↔ ∃ s ∈ ts, s.nullable = true ∨ s.HasNull := by
  simp only [allowsNull, Bool.or_eq_true, List.any_eq_true, List.mem_flatMap, HasNull]
  constructor
  · rintro (⟨t, ht, hflag⟩ | ⟨m, ⟨t, ht, hm⟩, hnull⟩)
    · exact ⟨t, ht, Or.inl hflag⟩
    · exact ⟨t, ht, Or.inr ⟨m, hm, hnull⟩⟩
  · rintro ⟨t, ht, hflag | ⟨m, hm, hnull⟩⟩
    · exact Or.inl ⟨t, ht, hflag⟩
    · exact Or.inr ⟨m, ⟨t, ht, hm⟩, hnull⟩

/-- The set of alternatives as it is listed in a union. -/
theorem toFinset_memberSet (us : List Ty) : (memberSet us).toFinset = us.toFinset := by
  ext u
  simp

/-- The members of a union are counted without repetition. -/
theorem card_toFinset (us : List Ty) : us.toFinset.card = (memberSet us).length := by
  rw [← toFinset_memberSet, List.toFinset_card_of_nodup (increasing_memberSet us).nodup]

/-- Two different alternatives make a union. -/
theorem ofAlternatives_of_two {us : List Ty} (h : 2 ≤ us.toFinset.card) (n : Bool) :
    ofAlternatives us n = union (memberSet us) n := by
  rw [card_toFinset] at h
  unfold ofAlternatives
  match memberSet us, h with
  | _ :: _ :: _, _ => rfl

/-- A descriptor that is made of plain alternatives stands for these. -/
theorem ofAlternatives_spec {us : List Ty} (h : ∀ u ∈ us, u.Plain) (n : Bool) :
    (ofAlternatives us n).Valid ∧ (ofAlternatives us n).NullFree ∧
      (ofAlternatives us n).alternatives = us.toFinset ∧
      (us ≠ [] → (ofAlternatives us n).nullable = n) := by
  have hplain : ∀ u ∈ memberSet us, u.Plain := fun u hu => h u (mem_memberSet.mp hu)
  have hinc := increasing_memberSet us
  have hset := toFinset_memberSet us
  unfold ofAlternatives
  match hms : memberSet us with
  | [] =>
    rw [hms] at hset
    refine ⟨.named true (by decide), nullFree_of_single rfl, hset, fun hne => ?_⟩
    exact absurd (List.toFinset_eq_empty_iff us |>.mp hset.symm) hne
  | [t] =>
    rw [hms] at hset hplain
    have ht := hplain t (List.mem_singleton_self t)
    refine ⟨ht.valid.withNullable n, nullFree_of_single (by simpa using ht.single), ?_,
      fun _ => nullable_withNullable t n⟩
    rw [alternatives_withNullable, ht.alternatives_eq, ← hset]
    simp
  | a :: b :: rest =>
    rw [hms] at hset hplain hinc
    have hfree : (union (a :: b :: rest) n).NullFree := by
      rintro - ⟨m, hm, hnull⟩
      simp [(hplain m hm).notNull] at hnull
    refine ⟨.union n (by simp) hinc (fun m hm => ?_) fun m hm => (hplain m hm).valid, hfree, ?_,
      fun _ => rfl⟩
    · exact ⟨(hplain m hm).single, (hplain m hm).unflagged⟩
    · rw [hfree.alternatives_union, hset]

section Merge

variable (hts : ∀ t ∈ ts, t.Valid)
include hts

/-- What merging collects is plain. -/
theorem plain_of_mem_plainAlternatives (hu : u ∈ plainAlternatives ts) : u.Plain := by
  obtain ⟨t, ht, hu⟩ := mem_allAlternatives.mp ((mem_plainAlternatives_iff hts).mp hu)
  exact (hts t ht).plain hu

theorem toFinset_plainAlternatives : (plainAlternatives ts).toFinset = allAlternatives ts := by
  ext u
  rw [List.mem_toFinset, mem_plainAlternatives_iff hts]

omit hts in
/-- Candidates that are not all the same are taken apart. -/
theorem merge_of_not_uniform (h : ¬Uniform ts) :
    merge ts = ofAlternatives (plainAlternatives ts) (allowsNull ts) := by
  simp only [Uniform, not_forall] at h
  obtain ⟨s, hs, t, ht, hst⟩ := h
  exact merge_eq_ofAlternatives hs ht hst

/-- Merging candidates that are not all the same collects their alternatives and their flags. -/
theorem collects_merge (h : ¬Uniform ts) : Collects ts (merge ts) := by
  obtain ⟨hvalid, hfree, halt, hflag⟩ :=
    ofAlternatives_spec (fun u => plain_of_mem_plainAlternatives hts) (allowsNull ts)
  rw [← merge_of_not_uniform h] at hvalid hfree halt hflag
  rw [toFinset_plainAlternatives hts] at halt
  refine ⟨hvalid, hfree, halt, ?_⟩
  by_cases hnil : plainAlternatives ts = []
  · -- nothing but the null type occurs, and some candidate is it
    have hnull : (merge ts).nullable = true := by
      rw [merge_of_not_uniform h, hnil]
      rfl
    simp only [Uniform, not_forall] at h
    obtain ⟨s, hs, -⟩ := h
    have hempty : allAlternatives ts = ∅ := by
      rw [← toFinset_plainAlternatives hts, hnil]
      rfl
    have hs' : s.isNull = true := isNull_of_allAlternatives_eq_empty hts hempty hs
    exact iff_of_true hnull ⟨s, hs, Or.inr (hasNull_of_isNull hs')⟩
  · rw [hflag hnil, allowsNull_iff]

/-- The check on unions accepts all that is collected. -/
theorem checkUnion_plainAlternatives (h : ¬Uniform ts) (hcard : 2 ≤ (allAlternatives ts).card) :
    checkUnion (plainAlternatives ts) (allowsNull ts) = .ok (merge ts) := by
  rw [← toFinset_plainAlternatives hts] at hcard
  rw [merge_of_not_uniform h, ofAlternatives_of_two hcard]
  refine checkUnion_eq_ok _ (card_toFinset _ ▸ hcard) fun m hm => ?_
  have hplain := plain_of_mem_plainAlternatives hts (mem_memberSet.mp hm)
  exact ⟨hplain.single, hplain.unflagged⟩

end Merge

/-- Equal candidates merge to what they are. -/
theorem exists_of_uniform (hne : ts ≠ []) (h : Uniform ts) :
    ∃ t ∈ ts, (∀ u ∈ ts, u = t) ∧ merge ts = t := by
  obtain ⟨t, ht⟩ := List.exists_mem_of_ne_nil ts hne
  have hall : ∀ u ∈ ts, u = t := fun u hu => h u hu t ht
  exact ⟨t, ht, hall, merge_eq_of_forall_eq hne hall⟩

/-- Candidates that are all the same have the alternatives of one. -/
theorem allAlternatives_of_forall_eq (ht : t ∈ ts) (h : ∀ u ∈ ts, u = t) :
    allAlternatives ts = t.alternatives := by
  ext v
  rw [mem_allAlternatives]
  constructor
  · rintro ⟨u, hu, hv⟩
    rwa [h u hu] at hv
  · exact fun hv => ⟨t, ht, hv⟩

/-- Merging loses no alternative and adds none, it gives a union where several remain, and it allows
`null` where a candidate does. What is collected always passes the check on unions. -/
theorem merge_stands_for_all (hne : ts ≠ []) (hts : ∀ t ∈ ts, t.Valid) :
    (merge ts).Valid ∧
    (¬Uniform ts → 2 ≤ (allAlternatives ts).card →
      checkUnion (plainAlternatives ts) (allowsNull ts) = .ok (merge ts)) ∧
    (merge ts).alternatives = allAlternatives ts ∧
    ((merge ts).isUnion = true ↔
      (∃ t, (∀ u ∈ ts, u = t) ∧ merge ts = t ∧ t.isUnion = true) ∨
        ¬Uniform ts ∧ 2 ≤ (allAlternatives ts).card) ∧
    ((merge ts).nullable = true ↔
      (∃ t ∈ ts, t.nullable = true) ∨ ¬Uniform ts ∧ ∃ t ∈ ts, t.HasNull) := by
  by_cases huniform : Uniform ts
  · obtain ⟨t, ht, hall, hmerge⟩ := exists_of_uniform hne huniform
    refine ⟨hmerge ▸ hts t ht, fun h => absurd huniform h, ?_, ?_, ?_⟩
    · rw [hmerge, allAlternatives_of_forall_eq ht hall]
    · refine ⟨fun hunion => Or.inl ⟨t, hall, hmerge, hmerge ▸ hunion⟩, ?_⟩
      rintro (⟨u, -, hu, hunion⟩ | ⟨h, -⟩)
      · rwa [hu]
      · exact absurd huniform h
    · rw [hmerge]
      refine ⟨fun hflag => Or.inl ⟨t, ht, hflag⟩, ?_⟩
      rintro (⟨u, hu, hflag⟩ | ⟨h, -⟩)
      · rwa [← hall u hu]
      · exact absurd huniform h
  · have hmerge := collects_merge hts huniform
    refine ⟨hmerge.valid, checkUnion_plainAlternatives hts, hmerge.alternatives_eq, ?_, ?_⟩
    · rw [isUnion_iff_card hmerge.valid hmerge.nullFree, hmerge.alternatives_eq]
      refine ⟨fun hcard => Or.inr ⟨huniform, hcard⟩, ?_⟩
      rintro (⟨t, hall, -⟩ | ⟨-, hcard⟩)
      · exact absurd (fun s hs u hu => (hall s hs).trans (hall u hu).symm) huniform
      · exact hcard
    · rw [hmerge.nullable_iff]
      constructor
      · rintro ⟨s, hs, hflag | hnull⟩
        · exact Or.inl ⟨s, hs, hflag⟩
        · exact Or.inr ⟨huniform, s, hs, hnull⟩
      · rintro (⟨s, hs, hflag⟩ | ⟨-, s, hs, hnull⟩)
        · exact ⟨s, hs, Or.inl hflag⟩
        · exact ⟨s, hs, Or.inr hnull⟩

/-- Candidates of which one has the null type as a member and the other has its flag set. -/
def nullishCandidates : List Ty :=
  [union [scalar .int false, named "null" false] false, scalar .string true]

theorem nullishCandidates_valid : ∀ t ∈ nullishCandidates, t.Valid := by
  simp only [nullishCandidates, List.forall_mem_cons, List.not_mem_nil, false_imp_iff, implies_true,
    and_true]
  have hinc : Increasing [scalar .int false, named "null" false] := by
    unfold Increasing
    decide
  refine ⟨.union _ (by decide) hinc (by decide) ?_, .scalar _ _⟩
  simp only [List.forall_mem_cons, List.not_mem_nil, false_imp_iff, implies_true, and_true]
  exact ⟨.scalar _ _, .named _ (by decide)⟩

/-- Candidates with null in all its forms: as a flag, as a member and by itself. -/
theorem merge_stands_for_all_nullish :
    nullishCandidates ≠ [] ∧ (∀ t ∈ nullishCandidates, t.Valid) ∧
    merge nullishCandidates = union [scalar .int false, scalar .string false] true ∧
    checkUnion (plainAlternatives nullishCandidates) (allowsNull nullishCandidates)
      = .ok (merge nullishCandidates) ∧
    (merge nullishCandidates).alternatives = allAlternatives nullishCandidates := by
  have hne : nullishCandidates ≠ [] := by decide
  obtain ⟨-, hcheck, halt, -, -⟩ := merge_stands_for_all hne nullishCandidates_valid
  exact ⟨hne, nullishCandidates_valid, rfl, hcheck (by decide) (by decide), halt⟩

/-! ### Candidates in groups -/

namespace Collects

variable {xs ys : List Ty}

/-- The candidates determine what collects them. -/
theorem eq (hs : Collects ts s) (ht : Collects ts t) : s = t := by
  refine eq_of_alternatives_eq hs.valid ht.valid hs.nullFree ht.nullFree ?_ ?_
  · rw [hs.alternatives_eq, ht.alternatives_eq]
  · exact Bool.eq_iff_iff.mpr (hs.nullable_iff.trans ht.nullable_iff.symm)

/-- Where what is collected is the null type, its flag is set, since some candidate is the
null type. -/
theorem nullable_of_hasNull (h : Collects ts t) (hne : ts ≠ []) (hts : ∀ s ∈ ts, s.Valid)
    (hnull : t.HasNull) : t.nullable = true := by
  have hsingle : t.isUnion = false := by
    by_contra hunion
    exact h.nullFree (by simpa using hunion) hnull
  obtain ⟨m, hm, hnull⟩ := hnull
  rw [members_of_not_isUnion hsingle, List.mem_singleton] at hm
  subst hm
  obtain ⟨s, hs⟩ := List.exists_mem_of_ne_nil ts hne
  have hempty : allAlternatives ts = ∅ := by
    rw [← h.alternatives_eq, alternatives_of_isNull hnull]
  have hs' := isNull_of_allAlternatives_eq_empty hts hempty hs
  exact h.nullable_iff.mpr ⟨s, hs, Or.inr (hasNull_of_isNull hs')⟩

/-- What collects a group stands for the group among further candidates. -/
theorem append (h : Collects xs s) (hne : xs ≠ []) (hxs : ∀ t ∈ xs, t.Valid)
    (ht : Collects (s :: ys) t) : Collects (xs ++ ys) t where
  valid := ht.valid
  nullFree := ht.nullFree
  alternatives_eq := by
    rw [ht.alternatives_eq]
    ext v
    simp only [mem_allAlternatives, List.exists_mem_cons_iff, List.mem_append, or_and_right,
      exists_or,
      h.alternatives_eq]
  nullable_iff := by
    have hgroup : (s.nullable = true ∨ s.HasNull) ↔ ∃ u ∈ xs, u.nullable = true ∨ u.HasNull := by
      rw [← h.nullable_iff]
      exact or_iff_left_of_imp (h.nullable_of_hasNull hne hxs)
    simp only [ht.nullable_iff, List.exists_mem_cons_iff, List.mem_append, or_and_right,
      exists_or, hgroup]

end Collects

/-- Merging some candidates beforehand changes nothing. -/
theorem merge_merge_cons {xs ys : List Ty} (hne : xs ≠ []) (h : ∀ t ∈ xs ++ ys, t.Valid) :
    merge (merge xs :: ys) = merge (xs ++ ys) := by
  obtain ⟨hxs, hys⟩ := List.forall_mem_append.mp h
  by_cases huniform : Uniform xs
  · obtain ⟨x, hx, hall, hmerge⟩ := exists_of_uniform hne huniform
    rw [hmerge]
    refine merge_congr fun t => ?_
    rw [List.mem_cons, List.mem_append]
    exact or_congr_left ⟨fun ht => ht ▸ hx, hall t⟩
  · have hgroup := collects_merge hxs huniform
    have hboth : Collects (xs ++ ys) (merge (xs ++ ys)) := collects_merge h fun hall =>
      huniform fun s hs t ht => hall s (List.mem_append_left ys hs) t (List.mem_append_left ys ht)
    have hvalid : ∀ t ∈ merge xs :: ys, t.Valid := List.forall_mem_cons.mpr ⟨hgroup.valid, hys⟩
    have hmerge : Collects (merge xs :: ys) (merge (merge xs :: ys)) := by
      by_cases hequal : Uniform (merge xs :: ys)
      · -- all further candidates are what the group gives already
        have hall : ∀ t ∈ merge xs :: ys, t = merge xs :=
          fun t ht => hequal t ht _ List.mem_cons_self
        rw [merge_eq_of_forall_eq (List.cons_ne_nil _ _) hall]
        refine ⟨hgroup.valid, hgroup.nullFree,
          (allAlternatives_of_forall_eq List.mem_cons_self hall).symm, ?_⟩
        refine ⟨fun hflag => ⟨_, List.mem_cons_self, Or.inl hflag⟩, ?_⟩
        rintro ⟨t, ht, hnull⟩
        rw [hall t ht] at hnull
        exact hnull.elim id (hgroup.nullable_of_hasNull hne hxs)
      · exact collects_merge hvalid hequal
    exact (hgroup.append hne hxs hmerge).eq hboth

/-- The candidate `null` becomes the flag of the other, and nothing else changes, unless the other
is a union with the null type among its members. -/
theorem merge_pair_null_iff (ht : t.Valid) :
    merge [t, null] = t.withNullable true ↔ t.NullFree := by
  by_cases hnull : t = null
  · subst hnull
    exact iff_of_true rfl (nullFree_of_single rfl)
  · have hvalid : ∀ s ∈ [t, null], s.Valid := by
      simp only [List.forall_mem_cons, List.not_mem_nil, false_imp_iff, implies_true, and_true]
      exact ⟨ht, .named true (by decide)⟩
    have hmerge : Collects [t, null] (merge [t, null]) :=
      collects_merge hvalid fun hall => hnull (hall t (by simp) null (by simp))
    have halt : allAlternatives [t, null] = t.alternatives := by
      ext v
      simp [mem_allAlternatives, alternatives_of_isNull (t := null) rfl]
    constructor
    · intro heq
      rw [← nullFree_withNullable t true, ← heq]
      exact hmerge.nullFree
    · intro hfree
      refine eq_of_alternatives_eq hmerge.valid (ht.withNullable true) hmerge.nullFree
        ((nullFree_withNullable t true).mpr hfree) ?_ ?_
      · rw [hmerge.alternatives_eq, halt, alternatives_withNullable]
      · rw [nullable_withNullable]
        exact hmerge.nullable_iff.mpr ⟨null, by simp, Or.inl rfl⟩

/-- Merging is a join: only which candidates occur counts, a group of candidates may be merged
first, and `null` becomes the flag of any descriptor that is no union with the null type among
its members. -/
theorem merge_is_join :
    (∀ xs ys : List Ty, (∀ t, t ∈ xs ↔ t ∈ ys) → merge xs = merge ys) ∧
    (∀ xs ys : List Ty, xs ≠ [] → (∀ t ∈ xs ++ ys, t.Valid) →
      merge (merge xs :: ys) = merge (xs ++ ys)) ∧
    ∀ t : Ty, t.Valid → (merge [t, null] = t.withNullable true ↔ t.NullFree) :=
  ⟨fun _ _ => merge_congr, fun _ _ => merge_merge_cons, fun _ => merge_pair_null_iff⟩

/-- Three candidates of which two are merged first, and a candidate to which `null` is added. -/
theorem merge_is_join_nullish :
    (∀ t ∈ nullishCandidates ++ [scalar .int true], t.Valid) ∧
    merge (merge nullishCandidates :: [scalar .int true]) =
      merge (nullishCandidates ++ [scalar .int true]) ∧
    merge [scalar .int false, null] = scalar .int true := by
  have hvalid : ∀ t ∈ nullishCandidates ++ [scalar .int true], t.Valid :=
    List.forall_mem_append.mpr ⟨nullishCandidates_valid, by simpa using Valid.scalar _ _⟩
  obtain ⟨-, hgroup, hnull⟩ := merge_is_join
  exact ⟨hvalid, hgroup _ _ (by decide) hvalid,
    (hnull _ (.scalar _ _)).mpr (nullFree_of_single rfl)⟩

end TypeFacts.Ty
