import Mathlib.Data.List.Sort
import Mathlib.Tactic.Common
import TypeFacts.Ty.Merge

/-!
# Merging as a union of sets

The members of a union stand in strictly increasing order of their codes, so a set of alternatives
is determined by its elements (`memberSet_congr`), and what merging makes of a list of candidates
depends only on which alternatives occur and on whether `null` is allowed (`merge_of_ne`).

* The merge of well-formed candidates is well formed (`merge_wellFormed`).
* A candidate that allows `null` makes the merge allow it and changes nothing else
  (`merge_withNullable_cons`).
* The order of the candidates does not count (`merge_congr`), and the candidate `null` becomes the
  flag (`merge_concat_null`).
* The members of a union, in any order, merge to the union (`merge_members`).
-/

namespace TypeFacts.Ty

/-- Members of a union in the order in which they are kept. -/
def Increasing (ms : List Ty) : Prop :=
  ms.Pairwise fun a b => a.code < b.code

/-! ### Sets of alternatives -/

theorem code_lt_trans {s t u : Ty} (h : s.code < t.code) (h' : t.code < u.code) :
    s.code < u.code :=
  List.lt_trans h h'

/-- Different types have different codes, one of which is smaller. -/
theorem code_lt_of_ne_of_not_lt {s t : Ty} (hne : s ≠ t) (h : ¬ s.code < t.code) :
    t.code < s.code := by
  by_contra h'
  exact hne (code_injective (List.le_antisymm h' h))

/-- In increasing order no type stands twice. -/
theorem Increasing.nodup {ms : List Ty} (h : Increasing ms) : ms.Nodup := by
  refine List.Pairwise.imp (fun {a b} hlt heq => ?_) h
  subst heq
  exact List.lt_irrefl a.code hlt

/-- Putting a type in its place keeps the order. -/
theorem increasing_insertMember {t : Ty} {ms : List Ty} (h : Increasing ms) :
    Increasing (insertMember t ms) := by
  induction ms with
  | nil => simp [insertMember, Increasing]
  | cons m ms ih =>
    obtain ⟨hm, hms⟩ := List.pairwise_cons.mp h
    simp only [insertMember]
    split_ifs with heq hlt
    · exact h
    · refine List.pairwise_cons.mpr ⟨fun u hu => ?_, h⟩
      rcases List.mem_cons.mp hu with rfl | hu
      · exact hlt
      · exact code_lt_trans hlt (hm u hu)
    · refine List.pairwise_cons.mpr ⟨fun u hu => ?_, ih hms⟩
      rcases mem_insertMember.mp hu with rfl | hu
      · exact code_lt_of_ne_of_not_lt heq hlt
      · exact hm u hu

/-- The set of some types is in increasing order. -/
theorem increasing_memberSet (ts : List Ty) : Increasing (memberSet ts) := by
  induction ts with
  | nil => exact List.Pairwise.nil
  | cons t ts ih => exact increasing_insertMember ih

/-- Two rows in increasing order with the same members are equal. -/
theorem Increasing.eq_of_mem_iff {xs ys : List Ty} (hx : Increasing xs) (hy : Increasing ys)
    (h : ∀ t, t ∈ xs ↔ t ∈ ys) : xs = ys := by
  have hperm : xs.Perm ys := (List.perm_ext_iff_of_nodup hx.nodup hy.nodup).mpr h
  refine hperm.eq_of_pairwise (fun a b _ _ hab hba => ?_) hx hy
  exact absurd (code_lt_trans hab hba) (List.lt_irrefl a.code)

/-- The set of alternatives depends only on which alternatives occur. -/
theorem memberSet_congr {xs ys : List Ty} (h : ∀ t, t ∈ xs ↔ t ∈ ys) :
    memberSet xs = memberSet ys :=
  (increasing_memberSet xs).eq_of_mem_iff (increasing_memberSet ys) fun t => by
    rw [mem_memberSet, mem_memberSet, h]

/-- An increasing list is the set of any list with the same types. -/
theorem memberSet_eq_of_mem_iff {xs ms : List Ty} (hms : Increasing ms)
    (h : ∀ t, t ∈ xs ↔ t ∈ ms) : memberSet xs = ms :=
  (increasing_memberSet xs).eq_of_mem_iff hms fun t => by rw [mem_memberSet, h]

/-! ### Alternatives of candidates -/

@[simp] theorem isNull_withNullable (t : Ty) (n : Bool) : (t.withNullable n).isNull = t.isNull := by
  cases t <;> rfl

@[simp] theorem isUnion_withNullable (t : Ty) (n : Bool) :
    (t.withNullable n).isUnion = t.isUnion := by
  cases t <;> rfl

theorem wellFormed_scalar (k : ScalarKind) (n : Bool) : (scalar k n).WellFormed :=
  trivial

theorem wellFormed_mixed : mixed.WellFormed := by
  simp [mixed, WellFormed]

theorem wellFormed_null : null.WellFormed := by
  simp [null, WellFormed]

theorem wellFormed_anyArray : anyArray.WellFormed :=
  wellFormed_mixed

/-- Allowing or forbidding null changes nothing about whether a type is well formed. -/
theorem wellFormed_withNullable {t : Ty} {n : Bool} :
    (t.withNullable n).WellFormed ↔ t.WellFormed := by
  cases t <;> simp [withNullable, WellFormed]

/-- A type that has the flag already stays as it is. -/
theorem withNullable_eq_self {t : Ty} {n : Bool} (h : t.nullable = n) : t.withNullable n = t := by
  rw [← h, withNullable_nullable]

/-- The null type with its flag set is the null type. -/
theorem withNullable_true_of_isNull {t : Ty} (h : t.isNull = true) :
    t.withNullable true = null := by
  cases t with
  | named s n =>
    have hs : s = "null" := by simpa [isNull] using h
    rw [hs]
    rfl
  | _ => cases h

theorem eq_union_of_isUnion {t : Ty} (h : t.isUnion = true) : ∃ ms n, t = union ms n := by
  cases t with
  | union ms n => exact ⟨ms, n, rfl⟩
  | _ => cases h

/-- A type that is no union is its only member. -/
theorem members_of_not_isUnion {t : Ty} (h : t.isUnion = false) : t.members = [t] := by
  cases t with
  | union ms n => cases h
  | _ => rfl

/-- The candidates add their alternatives one after the other. -/
theorem plainAlternatives_cons (t : Ty) (ts : List Ty) :
    plainAlternatives (t :: ts) = plainAlternatives [t] ++ plainAlternatives ts := by
  simp [plainAlternatives]

/-- An alternative of the candidates is one of some candidate. -/
theorem mem_plainAlternatives {u : Ty} {ts : List Ty} :
    u ∈ plainAlternatives ts ↔ ∃ t ∈ ts, u ∈ plainAlternatives [t] := by
  induction ts with
  | nil => simp [plainAlternatives]
  | cons t ts ih =>
    rw [plainAlternatives_cons, List.mem_append, ih]
    simp

/-- Flags do not count among the alternatives. -/
theorem plainAlternatives_withNullable (t : Ty) (n : Bool) :
    plainAlternatives [t.withNullable n] = plainAlternatives [t] := by
  cases t with
  | named s m =>
    cases hs : s == "null" <;> simp [plainAlternatives, withNullable, members, isNull, hs]
  | _ => simp [plainAlternatives, withNullable, members, isNull]

/-- Null has no alternatives of its own. -/
theorem plainAlternatives_of_isNull {t : Ty} (h : t.isNull = true) :
    plainAlternatives [t] = [] := by
  cases t with
  | named s n => simp [plainAlternatives, members, h]
  | _ => cases h

/-- A type that is neither a union nor null is its own alternative, without its flag. -/
theorem plainAlternatives_of_single {t : Ty} (hu : t.isUnion = false) (hn : t.isNull = false) :
    plainAlternatives [t] = [t.withNullable false] := by
  simp [plainAlternatives, members_of_not_isUnion hu, hn]

/-- The alternatives of a well-formed union are its members. -/
theorem plainAlternatives_union {ms : List Ty} {n : Bool} (h : (union ms n).WellFormed) :
    plainAlternatives [union ms n] = ms := by
  obtain ⟨-, -, hms, -⟩ := h
  have hfilter : ms.filter (fun t => !t.isNull) = ms :=
    List.filter_eq_self.mpr fun m hm => by simp [(hms m hm).2.2]
  simp only [plainAlternatives, List.flatMap_singleton, members, hfilter]
  exact (List.map_congr_left fun m hm => withNullable_eq_self (hms m hm).2.1).trans (List.map_id ms)

/-- What every alternative of a well-formed candidate is like. -/
theorem of_mem_plainAlternatives {t u : Ty} (h : t.WellFormed) (hu : u ∈ plainAlternatives [t]) :
    u.isUnion = false ∧ u.nullable = false ∧ u.isNull = false ∧ u.WellFormed := by
  cases ht : t.isUnion with
  | true =>
    obtain ⟨ms, n, rfl⟩ := eq_union_of_isUnion ht
    rw [plainAlternatives_union h] at hu
    obtain ⟨-, -, hms, hall⟩ := h
    obtain ⟨h₁, h₂, h₃⟩ := hms u hu
    exact ⟨h₁, h₂, h₃, allWellFormed_iff.mp hall u hu⟩
  | false =>
    cases hn : t.isNull with
    | true => rw [plainAlternatives_of_isNull hn] at hu; cases hu
    | false =>
      rw [plainAlternatives_of_single ht hn, List.mem_singleton] at hu
      subst hu
      exact ⟨by simpa using ht, by simp, by simpa using hn, wellFormed_withNullable.mpr h⟩

/-! ### Descriptors of sets of alternatives -/

/-- The order of alternatives and their repetition play no part. -/
theorem ofAlternatives_congr {xs ys : List Ty} (h : ∀ t, t ∈ xs ↔ t ∈ ys) (n : Bool) :
    ofAlternatives xs n = ofAlternatives ys n := by
  rw [ofAlternatives, ofAlternatives, memberSet_congr h]

/-- Allowing null afterwards is as good as allowing it at once. -/
theorem withNullable_ofAlternatives (ts : List Ty) (n : Bool) :
    (ofAlternatives ts n).withNullable true = ofAlternatives ts true := by
  unfold ofAlternatives
  split
  · rfl
  · exact withNullable_withNullable _ _ _
  · rfl

/-- Two or more alternatives in order are the members of a union. -/
theorem ofAlternatives_of_increasing {ms : List Ty} (h : Increasing ms) (hlen : 2 ≤ ms.length)
    (n : Bool) : ofAlternatives ms n = union ms n := by
  rw [ofAlternatives, memberSet_eq_of_mem_iff h fun _ => Iff.rfl]
  match ms, hlen with
  | _ :: _ :: _, _ => rfl

/-- A well-formed descriptor is the descriptor of its own alternatives. -/
theorem ofAlternatives_plainAlternatives {t : Ty} (h : t.WellFormed) :
    ofAlternatives (plainAlternatives [t]) true = t.withNullable true := by
  cases ht : t.isUnion with
  | true =>
    obtain ⟨ms, n, rfl⟩ := eq_union_of_isUnion ht
    rw [plainAlternatives_union h]
    exact ofAlternatives_of_increasing h.2.1 h.1 true
  | false =>
    cases hn : t.isNull with
    | true =>
      rw [plainAlternatives_of_isNull hn, withNullable_true_of_isNull hn]
      rfl
    | false =>
      rw [plainAlternatives_of_single ht hn]
      simp [ofAlternatives, memberSet, insertMember]

/-- Plain alternatives make a well-formed type. -/
theorem ofAlternatives_wellFormed {ts : List Ty} (n : Bool)
    (h : ∀ u ∈ ts, u.isUnion = false ∧ u.nullable = false ∧ u.isNull = false ∧ u.WellFormed) :
    (ofAlternatives ts n).WellFormed := by
  have hset : ∀ u ∈ memberSet ts,
      u.isUnion = false ∧ u.nullable = false ∧ u.isNull = false ∧ u.WellFormed :=
    fun u hu => h u (mem_memberSet.mp hu)
  have hinc := increasing_memberSet ts
  unfold ofAlternatives
  split
  · exact wellFormed_null
  · next t ht =>
    rw [ht] at hset
    exact wellFormed_withNullable.mpr (hset t List.mem_cons_self).2.2.2
  · next hnil hone =>
    refine ⟨?_, hinc, fun m hm => ?_, allWellFormed_iff.mpr fun m hm => (hset m hm).2.2.2⟩
    · match hms : memberSet ts with
      | [] => exact absurd hms hnil
      | [t] => exact absurd hms (hone t)
      | _ :: _ :: _ => simp
    · obtain ⟨h₁, h₂, h₃, -⟩ := hset m hm
      exact ⟨h₁, h₂, h₃⟩

/-! ### Merging -/

private theorem forall_eq_or_exists_ne (t : Ty) (ts : List Ty) :
    (∀ u ∈ ts, u = t) ∨ ∃ u ∈ ts, u ≠ t := by
  by_cases h : ∃ u ∈ ts, u ≠ t
  · exact Or.inr h
  · exact Or.inl fun u hu => by_contra fun hne => h ⟨u, hu, hne⟩

@[simp] theorem merge_singleton (t : Ty) : merge [t] = t := by
  simp [merge]

/-- Equal candidates are taken as they are. -/
theorem merge_of_forall_eq {t : Ty} {ts : List Ty} (h : ∀ u ∈ ts, u = t) : merge (t :: ts) = t := by
  have hall : ts.all (· = t) = true := by simpa using h
  simp [merge, hall]

/-- The alternatives of different candidates are collected. -/
theorem merge_of_ne {t : Ty} {ts : List Ty} (h : ∃ u ∈ ts, u ≠ t) :
    merge (t :: ts) = ofAlternatives (plainAlternatives (t :: ts)) (allowsNull (t :: ts)) := by
  have hall : ts.all (· = t) = false := by simpa using h
  simp only [merge, hall, Bool.false_eq_true, if_false]

/-- The merge of well-formed candidates is well formed. -/
theorem merge_wellFormed {ts : List Ty} (h : ∀ t ∈ ts, t.WellFormed) : (merge ts).WellFormed := by
  cases ts with
  | nil => exact wellFormed_mixed
  | cons t ts =>
    rcases forall_eq_or_exists_ne t ts with hall | hne
    · rw [merge_of_forall_eq hall]
      exact h t List.mem_cons_self
    · rw [merge_of_ne hne]
      refine ofAlternatives_wellFormed _ fun u hu => ?_
      obtain ⟨s, hs, hu⟩ := mem_plainAlternatives.mp hu
      exact of_mem_plainAlternatives (h s hs) hu

/-- One candidate that allows null is enough for all of them. -/
theorem allowsNull_of_nullable {t : Ty} {ts : List Ty} (ht : t ∈ ts) (h : t.nullable = true) :
    allowsNull ts = true := by
  have hany : ts.any nullable = true := List.any_eq_true.mpr ⟨t, ht, h⟩
  simp [allowsNull, hany]

/-- Where the first candidate and the same without or with its flag are the only ones, their
alternatives are those of the first. -/
private theorem mem_plainAlternatives_of_forall {t : Ty} {ts : List Ty}
    (h : ∀ u ∈ ts, ∃ n, u = t.withNullable n) (v : Ty) :
    v ∈ plainAlternatives (t :: ts) ↔ v ∈ plainAlternatives [t] := by
  rw [plainAlternatives_cons, List.mem_append, or_iff_left_iff_imp]
  intro hv
  obtain ⟨u, hu, hv⟩ := mem_plainAlternatives.mp hv
  obtain ⟨n, rfl⟩ := h u hu
  rwa [plainAlternatives_withNullable] at hv

/-- A flag on the first candidate becomes the flag of the merge. -/
theorem merge_withNullable_cons {t : Ty} {ts : List Ty} (h : t.WellFormed) :
    merge (t.withNullable true :: ts) = (merge (t :: ts)).withNullable true := by
  by_cases hself : t.withNullable true = t
  · -- the first candidate has the flag already, and then the merge has it, too
    rw [hself]
    have hn : t.nullable = true := by rw [← hself, nullable_withNullable]
    rcases forall_eq_or_exists_ne t ts with hall | hne
    · rw [merge_of_forall_eq hall, hself]
    · rw [merge_of_ne hne, allowsNull_of_nullable List.mem_cons_self hn,
        withNullable_ofAlternatives]
  · have hnull : allowsNull (t.withNullable true :: ts) = true :=
      allowsNull_of_nullable List.mem_cons_self (nullable_withNullable t true)
    have hplain : plainAlternatives (t.withNullable true :: ts) = plainAlternatives (t :: ts) := by
      rw [plainAlternatives_cons, plainAlternatives_withNullable, ← plainAlternatives_cons]
    -- with and without the flag, candidates may be taken as they are on one side
    -- and not on the other
    rcases forall_eq_or_exists_ne (t.withNullable true) ts with hall | hflag
    · rw [merge_of_forall_eq hall]
      cases ts with
      | nil => rw [merge_singleton]
      | cons u us =>
        have hu : u = t.withNullable true := hall u List.mem_cons_self
        have hne : ∃ v ∈ u :: us, v ≠ t := ⟨u, List.mem_cons_self, hu ▸ hself⟩
        rw [merge_of_ne hne, withNullable_ofAlternatives, ← ofAlternatives_plainAlternatives h]
        refine ofAlternatives_congr
          (fun v => (mem_plainAlternatives_of_forall (fun w hw => ?_) v).symm)
          true
        exact ⟨true, hall w hw⟩
    · rw [merge_of_ne hflag, hnull, hplain]
      rcases forall_eq_or_exists_ne t ts with hall | hne
      · rw [merge_of_forall_eq hall, ← ofAlternatives_plainAlternatives h]
        refine ofAlternatives_congr (mem_plainAlternatives_of_forall fun u hu => ?_) true
        exact ⟨t.nullable, by rw [hall u hu, withNullable_nullable]⟩
      · rw [merge_of_ne hne, withNullable_ofAlternatives]

/-! ### Candidates in any order -/

section Candidates

variable {xs ys : List Ty}

/-- Candidates that are all equal are taken as they are. -/
theorem merge_eq_of_forall_eq {t : Ty} (hne : xs ≠ []) (h : ∀ u ∈ xs, u = t) : merge xs = t := by
  obtain ⟨x, xs, rfl⟩ := List.exists_cons_of_ne_nil hne
  obtain rfl : x = t := h x List.mem_cons_self
  exact merge_of_forall_eq fun u hu => h u (List.mem_cons_of_mem x hu)

/-- The alternatives of candidates among which two are different are collected. -/
theorem merge_eq_ofAlternatives {s t : Ty} (hs : s ∈ xs) (ht : t ∈ xs) (hst : s ≠ t) :
    merge xs = ofAlternatives (plainAlternatives xs) (allowsNull xs) := by
  obtain ⟨x, xs, rfl⟩ := List.exists_cons_of_ne_nil (List.ne_nil_of_mem hs)
  rcases forall_eq_or_exists_ne x xs with hall | hne
  · have heq : ∀ u ∈ x :: xs, u = x := List.forall_mem_cons.mpr ⟨rfl, hall⟩
    exact absurd ((heq s hs).trans (heq t ht).symm) hst
  · exact merge_of_ne hne

/-- Candidates are all the same, or there are two different ones among them. -/
theorem forall_eq_or_two (hne : xs ≠ []) :
    (∃ t ∈ xs, ∀ u ∈ xs, u = t) ∨ ∃ s ∈ xs, ∃ t ∈ xs, s ≠ t := by
  obtain ⟨x, xs, rfl⟩ := List.exists_cons_of_ne_nil hne
  rcases forall_eq_or_exists_ne x xs with hall | ⟨u, hu, hux⟩
  · exact Or.inl ⟨x, List.mem_cons_self, List.forall_mem_cons.mpr ⟨rfl, hall⟩⟩
  · exact Or.inr ⟨u, List.mem_cons_of_mem x hu, x, List.mem_cons_self, hux⟩

/-- Whether candidates allow null does not depend on their order. -/
theorem allowsNull_congr (h : ∀ t, t ∈ xs ↔ t ∈ ys) : allowsNull xs = allowsNull ys := by
  have hiff : allowsNull xs = true ↔ allowsNull ys = true := by
    simp only [allowsNull, Bool.or_eq_true, List.any_eq_true, List.mem_flatMap, h]
  exact Bool.eq_iff_iff.mpr hiff

/-- What merging gives depends only on which candidates occur. -/
theorem merge_congr (h : ∀ t, t ∈ xs ↔ t ∈ ys) : merge xs = merge ys := by
  by_cases hne : xs = []
  · have hys : ys = [] := List.eq_nil_iff_forall_not_mem.mpr fun t ht => by
      simp [hne] at h
      exact h t ht
    rw [hne, hys]
  rcases forall_eq_or_two hne with ⟨t, ht, hall⟩ | ⟨s, hs, t, ht, hst⟩
  · rw [merge_eq_of_forall_eq hne hall, merge_eq_of_forall_eq (List.ne_nil_of_mem ((h t).mp ht))
      fun u hu => hall u ((h u).mpr hu)]
  · rw [merge_eq_ofAlternatives hs ht hst, allowsNull_congr h,
      merge_eq_ofAlternatives ((h s).mp hs) ((h t).mp ht) hst]
    refine ofAlternatives_congr (fun u => ?_) _
    rw [mem_plainAlternatives, mem_plainAlternatives]
    simp only [h]

/-- The candidate `null` becomes the flag of the merge. -/
theorem merge_concat_null (hne : xs ≠ []) (h : ∀ t ∈ xs, t.WellFormed) :
    merge (xs ++ [null]) = (merge xs).withNullable true := by
  have hnull : allowsNull (xs ++ [null]) = true :=
    allowsNull_of_nullable (t := null) (by simp) rfl
  have halt : ∀ v, v ∈ plainAlternatives (xs ++ [null]) ↔ v ∈ plainAlternatives xs := fun v => by
    rw [mem_plainAlternatives, mem_plainAlternatives]
    simp [plainAlternatives_of_isNull (t := null) rfl]
  rcases forall_eq_or_two hne with ⟨t, ht, hall⟩ | ⟨s, hs, t, ht, hst⟩
  · rw [merge_eq_of_forall_eq hne hall]
    by_cases htn : t = null
    · have hboth : ∀ u ∈ xs ++ [null], u = null := fun u hu => by
        rcases List.mem_append.mp hu with hu | hu
        · rw [hall u hu, htn]
        · exact List.mem_singleton.mp hu
      rw [merge_eq_of_forall_eq (by simp) hboth, htn]
      rfl
    · rw [merge_eq_ofAlternatives (List.mem_append_left _ ht) (by simp) htn, hnull,
        ← ofAlternatives_plainAlternatives (h t ht)]
      refine ofAlternatives_congr (fun v => (halt v).trans ?_) true
      rw [mem_plainAlternatives]
      exact ⟨fun ⟨u, hu, hv⟩ => hall u hu ▸ hv, fun hv => ⟨t, ht, hv⟩⟩
  · rw [merge_eq_ofAlternatives (List.mem_append_left _ hs) (List.mem_append_left _ ht) hst, hnull,
      ofAlternatives_congr halt, merge_eq_ofAlternatives hs ht hst, withNullable_ofAlternatives]

/-- Single alternatives that do not allow `null` themselves do not allow it together. -/
theorem allowsNull_eq_false
    (h : ∀ t ∈ xs, t.isUnion = false ∧ t.nullable = false ∧ t.isNull = false) :
    allowsNull xs = false := by
  refine Bool.or_eq_false_iff.mpr ⟨?_, ?_⟩
  · exact List.any_eq_false.mpr fun t ht => by simp [(h t ht).2.1]
  · refine List.any_eq_false.mpr fun t ht => ?_
    obtain ⟨u, hu, ht⟩ := List.mem_flatMap.mp ht
    obtain ⟨hunion, -, hnull⟩ := h u hu
    rw [members_of_not_isUnion hunion, List.mem_singleton] at ht
    simp [ht, hnull]

/-- Single alternatives of which none allows `null` merge to a descriptor that does not. -/
theorem nullable_merge_eq_false (hne : xs ≠ [])
    (h : ∀ t ∈ xs, t.isUnion = false ∧ t.nullable = false ∧ t.isNull = false) :
    (merge xs).nullable = false := by
  rcases forall_eq_or_two hne with ⟨t, ht, hall⟩ | ⟨s, hs, t, ht, hst⟩
  · rw [merge_eq_of_forall_eq hne hall]
    exact (h t ht).2.1
  · obtain ⟨hunion, -, hnotNull⟩ := h s hs
    have hmem : s.withNullable false ∈ memberSet (plainAlternatives xs) := by
      rw [mem_memberSet, mem_plainAlternatives]
      exact ⟨s, hs,
        by rw [plainAlternatives_of_single hunion hnotNull]; exact List.mem_singleton_self _⟩
    rw [merge_eq_ofAlternatives hs ht hst, allowsNull_eq_false h, ofAlternatives]
    split
    · next hnil => rw [hnil] at hmem; cases hmem
    · exact nullable_withNullable _ _
    · rfl

end Candidates

/-! ### The members of a union -/

section Members

variable {ms xs : List Ty}

/-- The alternatives of the members of a union are the members. -/
private theorem mem_plainAlternatives_members (h : (union ms false).WellFormed)
    (hxs : ∀ t, t ∈ xs ↔ t ∈ ms) (v : Ty) : v ∈ plainAlternatives xs ↔ v ∈ ms := by
  obtain ⟨-, -, hms, -⟩ := h
  have hsingle : ∀ m ∈ ms, plainAlternatives [m] = [m] := fun m hm => by
    obtain ⟨hu, hn, hnull⟩ := hms m hm
    rw [plainAlternatives_of_single hu hnull, withNullable_eq_self hn]
  rw [mem_plainAlternatives]
  constructor
  · rintro ⟨t, ht, hv⟩
    rw [hsingle t ((hxs t).mp ht), List.mem_singleton] at hv
    exact hv ▸ (hxs t).mp ht
  · intro hv
    exact ⟨v, (hxs v).mpr hv, by rw [hsingle v hv]; exact List.mem_singleton_self v⟩

/-- Among the members of a union there are two different ones. -/
private theorem exists_ne_of_members (h : (union ms false).WellFormed) (t : Ty) :
    ∃ u ∈ ms, u ≠ t := by
  obtain ⟨hlen, hinc, -, -⟩ := h
  match ms, hlen, Increasing.nodup hinc with
  | a :: b :: _, _, hnd =>
    by_cases ha : a = t
    · subst ha
      exact ⟨b, by simp, fun hb => by simp [hb] at hnd⟩
    · exact ⟨a, by simp, ha⟩

/-- The members of a union, in any order, merge to the union. -/
theorem merge_members (h : (union ms false).WellFormed) (hxs : ∀ t, t ∈ xs ↔ t ∈ ms) :
    merge xs = union ms false := by
  have hnull : allowsNull xs = false :=
    allowsNull_eq_false fun t ht => h.2.2.1 t ((hxs t).mp ht)
  obtain ⟨s, hs, -⟩ := exists_ne_of_members h null
  obtain ⟨t, ht, hts⟩ := exists_ne_of_members h s
  rw [merge_eq_ofAlternatives ((hxs t).mpr ht) ((hxs s).mpr hs) hts, hnull,
    ofAlternatives_congr (mem_plainAlternatives_members h hxs)]
  exact ofAlternatives_of_increasing h.2.1 h.1 false

/-- The members of a union and `null` merge to the union that allows `null`. -/
theorem merge_members_null (h : (union ms false).WellFormed) (hxs : ∀ t, t ∈ xs ↔ t ∈ ms) :
    merge (xs ++ [null]) = union ms true := by
  have hwf : ∀ t ∈ xs, t.WellFormed := fun t ht => allWellFormed_iff.mp h.2.2.2 t ((hxs t).mp ht)
  have hne : xs ≠ [] := by
    obtain ⟨u, hu, -⟩ := exists_ne_of_members h null
    exact List.ne_nil_of_mem ((hxs u).mpr hu)
  rw [merge_concat_null hne hwf, merge_members h hxs]
  rfl

end Members

end TypeFacts.Ty
