import TypeFacts.Proofs.Ty.Alternatives

/-!
# Acceptance and merging

A type accepts another where an alternative of the one accepts an alternative of the other
(`Ty.accepts`). For a type other than `null` only the alternatives count (`Ty.accepts_iff`), so what
candidates are merged to accepts what one of them accepts.

Whether `null` is accepted is a matter of the flag, and the members of a union have none: a union
that allows `null` accepts it only where one of its members is the type of anything
(`Ty.accepts_iff_of_isNull`). So candidates of which one accepts `null` may be merged to a union
that does not. This is the only case in which acceptance does not go through merging
(`Ty.accepts_merge`).
-/

namespace TypeFacts.Ty

variable {e g o t u : Ty} {ts : List Ty}

/-! ### Well-formed descriptors can be built -/

theorem WellFormed.nullFree (h : t.WellFormed) : t.NullFree := by
  rintro hunion ⟨m, hm, hnull⟩
  obtain ⟨ms, n, rfl⟩ := eq_union_of_isUnion hunion
  rw [(h.2.2.1 m hm).2.2] at hnull
  cases hnull

theorem WellFormed.valid {t : Ty} (h : t.WellFormed) : t.Valid :=
  match t, h with
  | .scalar k n, _ => .scalar k n
  | .named _ n, h => .named n h
  | .array _ n, h => .array n (WellFormed.valid h)
  | .keyed _ _ n, h => .keyed n (WellFormed.valid h.1) (WellFormed.valid h.2)
  | .union _ n, h => .union n h.1 h.2.1 (fun m hm => ⟨(h.2.2.1 m hm).1, (h.2.2.1 m hm).2.1⟩)
      fun m hm => WellFormed.valid (allWellFormed_iff.mp h.2.2.2 m hm)
termination_by sizeOf t
decreasing_by
  all_goals simp_wf
  all_goals first
    | omega
    | have := List.sizeOf_lt_of_mem hm; omega

/-- The alternatives of a well-formed type other than `null` are single types other than `null`. -/
theorem WellFormed.of_mem_members (h : o.WellFormed) (hnull : o.isNull = false)
    (hg : g ∈ o.members) :
    g.isUnion = false ∧ g.isNull = false := by
  cases hunion : o.isUnion with
  | true =>
    obtain ⟨ms, n, rfl⟩ := eq_union_of_isUnion hunion
    exact ⟨(h.2.2.1 g hg).1, (h.2.2.1 g hg).2.2⟩
  | false =>
    rw [members_of_not_isUnion hunion, List.mem_singleton] at hg
    exact hg ▸ ⟨hunion, hnull⟩

theorem Valid.exists_mem_members (h : t.Valid) : ∃ m, m ∈ t.members := by
  cases h with
  | union _ hlen _ _ _ => exact List.exists_mem_of_length_pos (Nat.lt_of_lt_of_le Nat.two_pos hlen)
  | _ => exact ⟨_, List.mem_singleton_self _⟩

/-! ### One alternative -/

/-- Only the null type goes by the name `null`. -/
theorem name_beq_null (hg : g.isUnion = false) : (g.name == "null") = g.isNull := by
  cases g with
  | scalar k n => cases k <;> rfl
  | union ms n => cases hg
  | _ => rfl

/-- The flag of what is expected counts for `null` only. -/
theorem acceptsOne_withNullable (hunion : g.isUnion = false) (hnull : g.isNull = false) (e : Ty)
    (n : Bool) : acceptsOne (e.withNullable n) g = acceptsOne e g := by
  have hname : (g.name == "null") = false := by rw [name_beq_null hunion, hnull]
  unfold acceptsOne
  rw [hname]
  cases e with
  | scalar k m => cases k <;> rfl
  | _ => rfl

/-- The null type accepts no other type but that of anything. -/
theorem acceptsOne_of_isNull (he : e.isNull = true) (hunion : g.isUnion = false)
    (hnull : g.isNull = false) : acceptsOne e g = g.isMixed := by
  have hname : (g.name == "null") = false := by rw [name_beq_null hunion, hnull]
  cases e with
  | named s n =>
    obtain rfl : s = "null" := by simpa [isNull] using he
    have hown : ((named "null" n).name == g.name) = false := by
      rw [BEq.comm]
      exact hname
    have hmixed : (named "null" n).isMixed = false := rfl
    simp only [acceptsOne, hown, hname, hmixed, Bool.false_and, Bool.false_or, Bool.or_false]
  | _ => cases he

@[simp] theorem isMixed_withNullable (t : Ty) (n : Bool) :
    (t.withNullable n).isMixed = t.isMixed := by
  cases t <;> rfl

/-- Every type accepts that of anything. -/
theorem acceptsOne_of_isMixed (e : Ty) (hg : g.isMixed = true) : acceptsOne e g = true := by
  simp [acceptsOne, hg]

/-- What accepts the null type: itself, what has its flag set, and the type of anything. -/
theorem acceptsOne_null (ho : o.isNull = true) (he : e.isUnion = false) :
    acceptsOne e o = (e.isNull || e.nullable || e.isMixed) := by
  cases o with
  | named s n =>
    obtain rfl : s = "null" := by simpa [isNull] using ho
    cases e with
    | scalar k m => cases k <;> cases m <;> rfl
    | named s m => simp [acceptsOne, name, isMixed, isNull, nullable]
    | array v m => cases m <;> rfl
    | keyed k v m => cases m <;> rfl
    | union ms m => cases he
  | _ => cases ho

/-! ### All alternatives -/

theorem accepts_eq_true :
    t.accepts o = true ↔ ∃ e ∈ t.members, ∃ g ∈ o.members, acceptsOne e g = true := by
  simp [accepts]

/-- Whether a type other than `null` is accepted depends on the alternatives alone. -/
theorem accepts_iff (ht : t.Valid) (ho : o.WellFormed) (hnull : o.isNull = false) :
    t.accepts o = true ↔ (∃ g ∈ o.members, g.isMixed = true) ∨
      ∃ a ∈ t.alternatives, ∃ g ∈ o.members, acceptsOne a g = true := by
  rw [accepts_eq_true]
  constructor
  · rintro ⟨e, he, g, hg, haccepts⟩
    obtain ⟨hgu, hgn⟩ := ho.of_mem_members hnull hg
    cases hen : e.isNull with
    | true =>
      rw [acceptsOne_of_isNull hen hgu hgn] at haccepts
      exact Or.inl ⟨g, hg, haccepts⟩
    | false =>
      refine Or.inr ⟨_, ht.mem_alternatives.mpr ⟨e, he, hen, rfl⟩, g, hg, ?_⟩
      rwa [acceptsOne_withNullable hgu hgn]
  · rintro (⟨g, hg, hmixed⟩ | ⟨a, ha, g, hg, haccepts⟩)
    · obtain ⟨e, he⟩ := ht.exists_mem_members
      exact ⟨e, he, g, hg, acceptsOne_of_isMixed e hmixed⟩
    · obtain ⟨hgu, hgn⟩ := ho.of_mem_members hnull hg
      obtain ⟨e, he, -, rfl⟩ := ht.mem_alternatives.mp ha
      rw [acceptsOne_withNullable hgu hgn] at haccepts
      exact ⟨e, he, g, hg, haccepts⟩

/-- The type of anything accepts `null`, and otherwise a single type does where it allows `null`.
The flag of a union does not count. -/
theorem accepts_iff_of_isNull (ht : t.Valid) (hfree : t.NullFree) (ho : o.isNull = true) :
    t.accepts o = true ↔ (t.isUnion = false ∧ (t.nullable = true ∨ t.HasNull)) ∨
      ∃ a ∈ t.alternatives, a.isMixed = true := by
  have hown : o.members = [o] := by
    cases o with
    | union ms n => cases ho
    | _ => rfl
  simp only [accepts_eq_true, hown, List.mem_singleton, exists_eq_left]
  cases hunion : t.isUnion with
  | true =>
    obtain ⟨ms, n, rfl⟩ := eq_union_of_isUnion hunion
    rw [hfree.alternatives_union]
    simp only [List.mem_toFinset, Bool.true_eq_false, false_and, false_or]
    refine exists_congr fun m => and_congr_right fun hm => ?_
    have hnull : m.isNull = false := by
      by_contra hnull
      exact hfree rfl ⟨m, hm, by simpa using hnull⟩
    cases ht with
    | union _ _ _ hms _ =>
      rw [acceptsOne_null ho (hms m hm).1, hnull, (hms m hm).2]
      rfl
  | false =>
    rw [members_of_not_isUnion hunion]
    simp only [List.mem_singleton, exists_eq_left, true_and, HasNull, acceptsOne_null ho hunion,
      members_of_not_isUnion hunion, Bool.or_eq_true]
    cases hnull : t.isNull with
    | true => simp
    | false =>
      rw [alternatives_of_single hunion hnull]
      simp

/-! ### Acceptance through merging -/

/-- The candidates are merged to a union that does not accept `null`, which is asked for. -/
def ForgetsNull (ts : List Ty) (o : Ty) : Prop :=
  o.isNull = true ∧ ¬Uniform ts ∧ 2 ≤ (allAlternatives ts).card ∧
    ∀ a ∈ allAlternatives ts, a.isMixed = false

section Candidates

variable (hts : ∀ s ∈ ts, s.WellFormed)
include hts

/-- What stands for all candidates accepts what one of them accepts, unless that is `null`. -/
theorem Collects.accepts_iff (h : Collects ts t) (hne : ts ≠ []) (ho : o.WellFormed)
    (hnull : o.isNull = false) : t.accepts o = true ↔ ∃ s ∈ ts, s.accepts o = true := by
  rw [Ty.accepts_iff h.valid ho hnull, h.alternatives_eq]
  constructor
  · rintro (hmixed | ⟨a, ha, haccepts⟩)
    · obtain ⟨s, hs⟩ := List.exists_mem_of_ne_nil ts hne
      exact ⟨s, hs, (Ty.accepts_iff (hts s hs).valid ho hnull).mpr (Or.inl hmixed)⟩
    · obtain ⟨s, hs, ha⟩ := mem_allAlternatives.mp ha
      exact ⟨s, hs, (Ty.accepts_iff (hts s hs).valid ho hnull).mpr (Or.inr ⟨a, ha, haccepts⟩)⟩
  · rintro ⟨s, hs, haccepts⟩
    refine ((Ty.accepts_iff (hts s hs).valid ho hnull).mp haccepts).imp_right ?_
    rintro ⟨a, ha, haccepts⟩
    exact ⟨a, mem_allAlternatives.mpr ⟨s, hs, ha⟩, haccepts⟩

/-- Where the type of anything is among the alternatives, everything is accepted. -/
theorem exists_accepts_null_of_mixed (ho : o.isNull = true)
    (hmixed : ∃ a ∈ allAlternatives ts, a.isMixed = true) : ∃ s ∈ ts, s.accepts o = true := by
  obtain ⟨a, ha, hmixed⟩ := hmixed
  obtain ⟨s, hs, ha⟩ := mem_allAlternatives.mp ha
  exact ⟨s, hs, (accepts_iff_of_isNull (hts s hs).valid (hts s hs).nullFree ho).mpr
    (Or.inr ⟨a, ha, hmixed⟩)⟩

/-- Where no union is made, none of the candidates is one, and the flags go through. -/
theorem Collects.accepts_null_iff (h : Collects ts t) (hne : ts ≠ []) (ho : o.isNull = true)
    (hcard : ¬2 ≤ (allAlternatives ts).card)
    (hmixed : ¬∃ a ∈ allAlternatives ts, a.isMixed = true) :
    t.accepts o = true ↔ ∃ s ∈ ts, s.accepts o = true := by
  have hvalid : ∀ s ∈ ts, s.Valid := fun s hs => (hts s hs).valid
  have hsingle : ∀ {s : Ty}, s.Valid → s.NullFree → s.alternatives ⊆ allAlternatives ts →
      s.isUnion = false := by
    intro s hs hfree hsub
    by_contra hunion
    have hcard' := (isUnion_iff_card hs hfree).mp (by simpa using hunion)
    exact hcard (hcard'.trans (Finset.card_le_card hsub))
  have hsub : ∀ s ∈ ts, s.alternatives ⊆ allAlternatives ts := fun s hs a ha =>
    mem_allAlternatives.mpr ⟨s, hs, ha⟩
  have hall : t.isUnion = false := hsingle h.valid h.nullFree h.alternatives_eq.subset
  have hflag : (t.nullable = true ∨ t.HasNull) ↔ ∃ s ∈ ts, s.nullable = true ∨ s.HasNull := by
    rw [← h.nullable_iff]
    exact or_iff_left_of_imp (h.nullable_of_hasNull hne hvalid)
  rw [accepts_iff_of_isNull h.valid h.nullFree ho, h.alternatives_eq, or_iff_left hmixed,
    and_iff_right hall, hflag]
  refine exists_congr fun s => and_congr_right fun hs => ?_
  have hplain : ¬∃ a ∈ s.alternatives, a.isMixed = true := fun ⟨a, ha, ham⟩ =>
    hmixed ⟨a, hsub s hs ha, ham⟩
  rw [accepts_iff_of_isNull (hts s hs).valid (hts s hs).nullFree ho, or_iff_left hplain,
    and_iff_right (hsingle (hts s hs).valid (hts s hs).nullFree (hsub s hs))]

theorem accepts_merge_iff (hne : ts ≠ []) (ho : o.WellFormed) :
    (merge ts).accepts o = true ↔ (∃ t ∈ ts, t.accepts o = true) ∧ ¬ForgetsNull ts o := by
  by_cases huniform : Uniform ts
  · obtain ⟨t, ht, hall, hmerge⟩ := exists_of_uniform hne huniform
    rw [hmerge]
    constructor
    · exact fun haccepts => ⟨⟨t, ht, haccepts⟩, fun hforgets => hforgets.2.1 huniform⟩
    · rintro ⟨⟨u, hu, haccepts⟩, -⟩
      rwa [← hall u hu]
  have hmerge : Collects ts (merge ts) := collects_merge (fun t ht => (hts t ht).valid) huniform
  cases hnull : o.isNull with
  | false =>
    rw [hmerge.accepts_iff hts hne ho hnull, iff_self_and]
    rintro - ⟨hnull', -⟩
    rw [hnull] at hnull'
    cases hnull'
  | true =>
    by_cases hmixed : ∃ a ∈ allAlternatives ts, a.isMixed = true
    · have haccepts : (merge ts).accepts o = true := by
        rw [accepts_iff_of_isNull hmerge.valid hmerge.nullFree hnull, hmerge.alternatives_eq]
        exact Or.inr hmixed
      refine iff_of_true haccepts ⟨exists_accepts_null_of_mixed hts hnull hmixed, ?_⟩
      rintro ⟨-, -, -, hplain⟩
      obtain ⟨a, ha, ham⟩ := hmixed
      rw [hplain a ha] at ham
      cases ham
    by_cases hcard : 2 ≤ (allAlternatives ts).card
    · -- a union is made, and whether `null` is allowed is not asked of a union
      have hunion : (merge ts).isUnion = true := by
        rw [isUnion_iff_card hmerge.valid hmerge.nullFree, hmerge.alternatives_eq]
        exact hcard
      have hplain : ∀ a ∈ allAlternatives ts, a.isMixed = false := fun a ha => by
        by_contra ham
        exact hmixed ⟨a, ha, by simpa using ham⟩
      refine iff_of_false (fun haccepts => ?_) fun h => h.2 ⟨hnull, huniform, hcard, hplain⟩
      rw [accepts_iff_of_isNull hmerge.valid hmerge.nullFree hnull, hmerge.alternatives_eq, hunion]
        at haccepts
      rcases haccepts with ⟨h, -⟩ | h
      · cases h
      · exact hmixed h
    · rw [hmerge.accepts_null_iff hts hne hnull hcard hmixed, iff_self_and]
      exact fun _ hforgets => hcard hforgets.2.2.1

end Candidates

/-- What candidates are merged to accepts what one of them accepts, unless `null` is asked for of a
union none of whose members is the type of anything. So one more candidate takes nothing away but
`null`, and a type that allows `null` accepts it unless it is such a union. -/
theorem accepts_merge (hne : ts ≠ []) (hts : ∀ t ∈ ts, t.WellFormed) (ho : o.WellFormed) :
    ((merge ts).accepts o = true ↔ (∃ t ∈ ts, t.accepts o = true) ∧ ¬ForgetsNull ts o) ∧
    (∀ u : Ty, u.WellFormed → (merge ts).accepts o = true →
      ((merge (u :: ts)).accepts o = true ↔ ¬ForgetsNull (u :: ts) o)) ∧
    ∀ t : Ty, t.WellFormed → t.nullable = true →
      (t.accepts null = true ↔ (t.isUnion = true → ∃ m ∈ t.members, m.isMixed = true)) := by
  refine ⟨accepts_merge_iff hts hne ho, fun u hu haccepts => ?_, fun t ht hflag => ?_⟩
  · obtain ⟨t, ht, haccepts⟩ := ((accepts_merge_iff hts hne ho).mp haccepts).1
    rw [accepts_merge_iff (List.forall_mem_cons.mpr ⟨hu, hts⟩) (List.cons_ne_nil u ts) ho]
    exact and_iff_right ⟨t, List.mem_cons_of_mem u ht, haccepts⟩
  · rw [accepts_iff_of_isNull ht.valid ht.nullFree rfl]
    cases hunion : t.isUnion with
    | false => simp [hflag]
    | true =>
      obtain ⟨ms, n, rfl⟩ := eq_union_of_isUnion hunion
      rw [ht.nullFree.alternatives_union]
      simp [members]

/-- A nullable integer and a text. -/
def flaggedCandidates : List Ty :=
  [scalar .int true, scalar .string false]

theorem flaggedCandidates_wellFormed : ∀ t ∈ flaggedCandidates, t.WellFormed := by
  simp only [flaggedCandidates, List.forall_mem_cons, List.not_mem_nil, false_imp_iff, implies_true,
    and_true]
  exact ⟨wellFormed_scalar _ _, wellFormed_scalar _ _⟩

/-- The integer goes with a number with a fraction, and so does the union. -/
theorem accepts_merge_float :
    flaggedCandidates ≠ [] ∧ (∀ t ∈ flaggedCandidates, t.WellFormed) ∧
    (scalar .float false).WellFormed ∧
    (merge flaggedCandidates).accepts (scalar .float false) = true := by
  have hne : flaggedCandidates ≠ [] := by decide
  have hfloat : (scalar .float false).WellFormed := wellFormed_scalar _ _
  obtain ⟨hmerge, -⟩ := accepts_merge hne flaggedCandidates_wellFormed hfloat
  refine ⟨hne, flaggedCandidates_wellFormed, hfloat, hmerge.mpr ⟨?_, fun h => ?_⟩⟩
  · exact ⟨scalar .int true, List.mem_cons_self, rfl⟩
  · cases h.1

/-- A nullable integer accepts `null`, but the nullable union of integers and texts does not. -/
theorem nullable_union_refuses_null :
    (∀ t ∈ flaggedCandidates, t.WellFormed) ∧ null.WellFormed ∧
    (∃ t ∈ flaggedCandidates, t.accepts null = true) ∧
    merge flaggedCandidates = union [scalar .int false, scalar .string false] true ∧
    (merge flaggedCandidates).accepts null = false :=
  ⟨flaggedCandidates_wellFormed, wellFormed_null, ⟨scalar .int true, List.mem_cons_self, rfl⟩,
    rfl, rfl⟩

end TypeFacts.Ty
