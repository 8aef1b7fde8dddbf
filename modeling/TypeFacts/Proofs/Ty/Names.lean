import TypeFacts.Proofs.Ty.Merging

/-!
# The names in a type

A condition on names holds of a type where it holds of every name in it (`Ty.AllNames`), at any
depth. Replacing names (`Ty.mapNames`) goes through arrays and unions; the members of a union may
become equal or `null`, so a union is merged anew and keeps its flag.

* The candidates of a merge have no other names than the merge, `null` apart
  (`allNames_of_merge`), and the merge has no other names than its candidates (`allNames_merge`).
* Replacing names keeps the flag, unless a member of a union becomes `null`
  (`nullable_mapNames`).
-/

namespace TypeFacts.Ty

mutual

/-- Does every name in the descriptor meet the condition? -/
def AllNames (p : String → Prop) : Ty → Prop
  | scalar _ _ => True
  | named s _ => p s
  | array v _ => v.AllNames p
  | keyed k v _ => k.AllNames p ∧ v.AllNames p
  | union ms _ => AllNamesIn p ms

/-- Does every name in some descriptors meet the condition? -/
def AllNamesIn (p : String → Prop) : List Ty → Prop
  | [] => True
  | t :: ts => t.AllNames p ∧ AllNamesIn p ts

end

mutual

/-- The descriptor with its names replaced, and its unions merged anew. -/
def mapNames (f : String → String) : Ty → Ty
  | scalar k n => scalar k n
  | named s n => named (f s) n
  | array v n => array (v.mapNames f) n
  | keyed k v n => keyed (k.mapNames f) (v.mapNames f) n
  | union ms n =>
    let t := merge (mapNamesIn f ms)
    if n then t.withNullable true else t

/-- Some descriptors with their names replaced. -/
def mapNamesIn (f : String → String) : List Ty → List Ty
  | [] => []
  | t :: ts => t.mapNames f :: mapNamesIn f ts

end

/-! ### Conditions on names -/

section AllNames

variable {p : String → Prop}

theorem allNamesIn_iff {ts : List Ty} : AllNamesIn p ts ↔ ∀ t ∈ ts, t.AllNames p := by
  induction ts with
  | nil => simp [AllNamesIn]
  | cons t ts ih => simp [AllNamesIn, ih]

@[simp] theorem allNames_withNullable {t : Ty} {n : Bool} :
    (t.withNullable n).AllNames p ↔ t.AllNames p := by
  cases t <;> simp [withNullable, AllNames]

theorem allNames_of_isNull {t : Ty} (hp : p "null") (h : t.isNull = true) : t.AllNames p := by
  rwa [← allNames_withNullable (n := true), withNullable_true_of_isNull h]

theorem allNames_iff_members {t : Ty} : t.AllNames p ↔ ∀ m ∈ t.members, m.AllNames p := by
  cases t with
  | union ms n => exact allNamesIn_iff
  | _ => simp [members]

theorem allNames_of_ofAlternatives {ts : List Ty} {n : Bool}
    (h : (ofAlternatives ts n).AllNames p) :
    ∀ t ∈ ts, t.AllNames p := by
  intro t ht
  have hmem : t ∈ memberSet ts := mem_memberSet.mpr ht
  unfold ofAlternatives at h
  split at h
  · next hnil => rw [hnil] at hmem; cases hmem
  · next u hone =>
    rw [hone, List.mem_singleton] at hmem
    exact hmem ▸ allNames_withNullable.mp h
  · exact allNamesIn_iff.mp h t hmem

/-- The names of candidates stay in their merge, `null` apart. -/
theorem allNames_of_merge {ts : List Ty} (hp : p "null") (h : (merge ts).AllNames p) :
    ∀ t ∈ ts, t.AllNames p := by
  intro t ht
  rcases forall_eq_or_two (List.ne_nil_of_mem ht) with ⟨u, -, hall⟩ | ⟨u, hu, v, hv, huv⟩
  · rw [merge_eq_of_forall_eq (List.ne_nil_of_mem ht) hall] at h
    exact hall t ht ▸ h
  · rw [merge_eq_ofAlternatives hu hv huv] at h
    refine allNames_iff_members.mpr fun m hm => ?_
    by_cases hnull : m.isNull = true
    · exact allNames_of_isNull hp hnull
    · refine allNames_withNullable.mp (allNames_of_ofAlternatives h (m.withNullable false) ?_)
      refine List.mem_map_of_mem (List.mem_filter.mpr ⟨List.mem_flatMap.mpr ⟨t, ht, hm⟩, ?_⟩)
      simpa using hnull

theorem allNames_ofAlternatives {ts : List Ty} {n : Bool} (hp : p "null")
    (h : ∀ t ∈ ts, t.AllNames p) : (ofAlternatives ts n).AllNames p := by
  have hset : ∀ t ∈ memberSet ts, t.AllNames p := fun t ht => h t (mem_memberSet.mp ht)
  unfold ofAlternatives
  split
  · exact hp
  · next t hone =>
    rw [hone] at hset
    exact allNames_withNullable.mpr (hset t List.mem_cons_self)
  · exact allNamesIn_iff.mpr hset

/-- A merge has the names of its candidates, and perhaps `null`. -/
theorem allNames_merge {ts : List Ty} (hne : ts ≠ []) (hp : p "null") (h : ∀ t ∈ ts, t.AllNames p) :
    (merge ts).AllNames p := by
  rcases forall_eq_or_two hne with ⟨u, hu, hall⟩ | ⟨u, hu, v, hv, huv⟩
  · rw [merge_eq_of_forall_eq hne hall]
    exact h u hu
  · rw [merge_eq_ofAlternatives hu hv huv]
    refine allNames_ofAlternatives hp fun a ha => ?_
    obtain ⟨m, hm, rfl⟩ := List.mem_map.mp ha
    obtain ⟨t, ht, hmem⟩ := List.mem_flatMap.mp (List.mem_filter.mp hm).1
    exact allNames_withNullable.mpr (allNames_iff_members.mp (h t ht) m hmem)

end AllNames

/-! ### Replacing names -/

section MapNames

variable {f : String → String}

theorem mapNamesIn_eq_map (ts : List Ty) : mapNamesIn f ts = ts.map (mapNames f) := by
  induction ts with
  | nil => rfl
  | cons t ts ih => rw [mapNamesIn, ih, List.map_cons]

theorem mapNames_union (ms : List Ty) (n : Bool) : (union ms n).mapNames f =
    if n then (merge (ms.map (mapNames f))).withNullable true else merge (ms.map (mapNames f)) := by
  rw [mapNames, mapNamesIn_eq_map]

theorem isUnion_mapNames {t : Ty} (h : t.isUnion = false) : (t.mapNames f).isUnion = false := by
  cases t with
  | union ms n => cases h
  | _ => rfl

theorem nullable_mapNames_of_not_isUnion {t : Ty} (h : t.isUnion = false) :
    (t.mapNames f).nullable = t.nullable := by
  cases t with
  | union ms n => cases h
  | _ => rfl

/-- Replacing names keeps the flag, unless a member of a union becomes `null`. -/
theorem nullable_mapNames {t : Ty} (h : t.WellFormed)
    (hnull : ∀ m ∈ t.members, (m.mapNames f).isNull = true → m.isNull = true) :
    (t.mapNames f).nullable = t.nullable := by
  cases hunion : t.isUnion with
  | false => exact nullable_mapNames_of_not_isUnion hunion
  | true =>
    obtain ⟨ms, n, rfl⟩ := eq_union_of_isUnion hunion
    obtain ⟨hlen, -, hms, -⟩ := h
    rw [mapNames_union]
    cases n with
    | true => exact nullable_withNullable _ _
    | false =>
      refine nullable_merge_eq_false (List.ne_nil_of_length_pos (by simp; omega)) fun u hu => ?_
      obtain ⟨m, hm, rfl⟩ := List.mem_map.mp hu
      obtain ⟨hsingle, hflag, hname⟩ := hms m hm
      refine ⟨isUnion_mapNames hsingle, ?_, Bool.eq_false_iff.mpr fun hbecomes => ?_⟩
      · rw [nullable_mapNames_of_not_isUnion hsingle, hflag]
      · rw [hnull m hm hbecomes] at hname
        cases hname

end MapNames

end TypeFacts.Ty
