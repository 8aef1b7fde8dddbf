import TypeFacts.Proofs.TypeText.Grammar

/-!
# Reading what was written

A canonical type is one that its own text determines: its names are paths that the grammar does not
read as anything else, and its unions have at least two distinct members without flags. The text of
a canonical type is an expression of the grammar that describes the type, also when some of its
blanks are left out (`Canonical.denotes_filter`), so reading it gives the type back and no two
canonical types share a text (`render_determines_type`).

Each rule of writing has its lemma: the question mark in front (`denotes_marked`), the bare word for
arrays of anything (`denotes_array`), and the last alternative `null` of a union (`denotes_union`).
The class `keep` in them holds the characters that are kept, among them all that are no blanks.
The members of a union are written in the order of their texts, which is some order of the members
(`exists_sorted_map`).
-/

namespace TypeFacts.TypeText

open Text (isBlank)

/-- A name that is written as it stands: word characters and backslashes, none of them in front. -/
structure IsPath (s : String) : Prop where
  chars : ∀ c ∈ s.toList, isNameChar c = true
  nonempty : s ≠ ""
  plain : s.toList.head? ≠ some '\\'

instance (s : String) : Decidable (IsPath s) :=
  decidable_of_iff (s.toList.all isNameChar = true ∧ s ≠ "" ∧ s.toList.head? ≠ some '\\')
    ⟨fun h => ⟨List.all_eq_true.mp h.1, h.2.1, h.2.2⟩,
      fun h => ⟨List.all_eq_true.mpr h.chars, h.nonempty, h.plain⟩⟩

/-- A name with its flag that reads back as itself. Aliases of scalar kinds and the words for arrays
are read as other types and keywords in lower case; `null` is one name, in lower case and with the
flag set, whatever letter case it is read from. -/
structure IsCanonicalName (s : String) (nullable : Bool) : Prop extends IsPath s where
  notScalar : scalarAlias? (Text.asciiLower s) = none
  notArray : isArrayWord (Text.asciiLower s) = false
  keyword : isKeyword (Text.asciiLower s) = true → Text.asciiLower s = s
  null : Text.asciiLower s = "null" → s = "null" ∧ nullable = true

instance (s : String) (n : Bool) : Decidable (IsCanonicalName s n) :=
  decidable_of_iff (IsPath s ∧ scalarAlias? (Text.asciiLower s) = none ∧
      isArrayWord (Text.asciiLower s) = false ∧
      (isKeyword (Text.asciiLower s) = true → Text.asciiLower s = s) ∧
      (Text.asciiLower s = "null" → s = "null" ∧ n = true))
    ⟨fun h => ⟨h.1, h.2.1, h.2.2.1, h.2.2.2.1, h.2.2.2.2⟩,
      fun h => ⟨h.toIsPath, h.notScalar, h.notArray, h.keyword, h.null⟩⟩

/-- The types that their texts determine. -/
inductive Canonical : Ty → Prop
  | scalar (k : ScalarKind) (n : Bool) : Canonical (.scalar k n)
  | named {s : String} {n : Bool} : IsCanonicalName s n → Canonical (.named s n)
  | array {v : Ty} (n : Bool) : Canonical v → Canonical (.array v n)
  | keyed {k v : Ty} (n : Bool) : Canonical k → Canonical v → Canonical (.keyed k v n)
  /-- The members of a union are a set, listed in the order of their codes. -/
  | union {ms : List Ty} (n : Bool) : 2 ≤ ms.length → Ty.Increasing ms →
      (∀ m ∈ ms, m.nullable = false ∧ m.isUnion = false ∧ m.isNull = false) →
      (∀ m ∈ ms, Canonical m) → Canonical (.union ms n)

/-- A canonical type is well formed. -/
theorem Canonical.wellFormed {t : Ty} (h : Canonical t) : t.WellFormed := by
  induction h with
  | scalar k n => exact trivial
  | named h => exact h.nonempty
  | array n _ ih => exact ih
  | keyed n _ _ ihk ihv => exact ⟨ihk, ihv⟩
  | union n hlen hinc hms _ ih =>
    refine ⟨hlen, hinc, fun m hm => ?_, Ty.allWellFormed_iff.mpr ih⟩
    obtain ⟨hnull, hunion, hname⟩ := hms m hm
    exact ⟨hunion, hnull, hname⟩

/-! ### Names and scalar kinds -/

theorem scalarAlias?_word (k : ScalarKind) : scalarAlias? (lowered k.word.toList) = some k := by
  cases k <;> decide

/-- The word of a scalar stands for it. -/
theorem denotes_scalar (k : ScalarKind) : Denotes .suffixed k.word.toList (.scalar k false) :=
  .bare (.scalar (scalarAlias?_word k))

theorem lowered_toList (s : String) : lowered s.toList = Text.asciiLower s := by
  rw [lowered, String.ofList_toList]

theorem IsPath.dropBackslashes {s : String} (h : IsPath s) :
    Text.dropBackslashes s.toList = s.toList :=
  Text.dropBackslashes_eq_self h.plain

/-- A path that is no word of the grammar is a class name, and stands for itself. -/
theorem IsPath.isClassName {s : String} (h : IsPath s) (hres : isReserved s = false) :
    IsClassName s.toList :=
  ⟨h.chars, by rw [h.dropBackslashes]; simpa using h.nonempty, by rwa [String.ofList_toList]⟩

theorem IsPath.nameType_eq {s : String} (h : IsPath s) : nameType s.toList = .named s false := by
  rw [nameType, h.dropBackslashes, String.ofList_toList]

/-- A canonical name other than `null`, without its flag. -/
theorem denotes_name {s : String} {n : Bool} (h : IsCanonicalName s n) (hnull : s ≠ "null") :
    Denotes .suffixed s.toList (.named s false) := by
  by_cases hkey : isKeyword (Text.asciiLower s) = true
  · have hword : isKeyword (lowered s.toList) = true := by rwa [lowered_toList]
    have hdenotes := Denotes.bare (.keyword hword)
    rwa [lowered_toList, h.keyword hkey] at hdenotes
  · have hlower : Text.asciiLower s ≠ "null" := fun heq => hnull (h.null heq).1
    have hres : isReserved s = false := by
      simp [isReserved, h.notScalar, h.notArray, hkey, hlower]
    exact h.nameType_eq ▸ .bare (.className (h.isClassName hres))

/-! ### Flags -/

section Kept

variable {keep : Char → Bool}

/-- Names have no blanks to leave out. -/
theorem filter_nameChars (hkeep : ∀ c, isBlank c = false → keep c = true) {cs : List Char}
    (h : ∀ c ∈ cs, isNameChar c = true) : cs.filter keep = cs :=
  List.filter_eq_self.mpr fun c hc => hkeep c (not_isBlank_of_isNameChar (h c hc))

theorem filter_reserved (hkeep : ∀ c, isBlank c = false → keep c = true) {w : String}
    (h : isReserved w = true) : w.toList.filter keep = w.toList :=
  filter_nameChars hkeep (nameChars_of_isReserved (by rwa [String.ofList_toList])).2

/-- The mark of a nullable type is read as its flag; without it the text stays one alternative. -/
theorem denotes_marked (hkeep : ∀ c, isBlank c = false → keep c = true) {text : String} {t : Ty}
    (h : Denotes .suffixed (text.toList.filter keep) t) (ht : t.nullable = false)
    (hnull : text ≠ "null") (n : Bool) :
    Denotes .alternative ((Ty.marked n text).toList.filter keep) (t.withNullable n) := by
  cases n with
  | false =>
    rw [Ty.withNullable_eq_self ht]
    exact .plain h
  | true =>
    have hmark : (Ty.marked true text).toList = '?' :: text.toList := by
      simp [Ty.marked, hnull]
    rw [hmark, List.filter_cons_of_pos (hkeep _ (by decide))]
    exact .optional h

/-! ### Arrays -/

theorem ne_null_of_head {text : String} (h : text.toList.head? = some 'a') : text ≠ "null" := by
  rintro rfl
  exact absurd h (by decide)

/-- Only the name `mixed` without its flag gives the bare word for arrays. -/
theorem eq_mixed_of_bare {v : Ty} (h : (v.isMixed && !v.nullable) = true) : v = .mixed := by
  cases v with
  | named s m => simpa [Ty.isMixed, Ty.nullable, Ty.mixed] using h
  | _ => cases h

/-- The text of an array stands for it if that of its values does. -/
theorem denotes_array (hkeep : ∀ c, isBlank c = false → keep c = true) {v : Ty}
    (h : Denotes .expression (v.render.toList.filter keep) v) (n : Bool) :
    Denotes .alternative ((Ty.array v n).render.toList.filter keep) (.array v n) := by
  rw [Ty.render]
  by_cases hmixed : (v.isMixed && !v.nullable) = true
  · obtain rfl := eq_mixed_of_bare hmixed
    rw [if_pos hmixed]
    refine denotes_marked hkeep (t := .anyArray) ?_ rfl (by decide) n
    rw [filter_reserved hkeep (by decide)]
    exact .bare (.anyArray (by decide))
  · rw [if_neg hmixed]
    have hw : isArrayWord (lowered "array".toList) = true := by decide
    have htext : ("array<" ++ v.render ++ ">").toList.filter keep
        = "array".toList ++ '<' :: (v.render.toList.filter keep ++ ['>']) := by
      have hsplit : ("array<" ++ v.render ++ ">").toList
          = "array".toList ++ '<' :: (v.render.toList ++ ['>']) := by simp
      rw [hsplit, List.filter_append, filter_reserved hkeep (by decide),
        List.filter_cons_of_pos (hkeep _ (by decide)), List.filter_append,
        List.filter_cons_of_pos (hkeep _ (by decide)), List.filter_nil]
    refine denotes_marked hkeep (t := .array v false) ?_ rfl (ne_null_of_head (by simp)) n
    rw [htext]
    exact .bare (.array hw h)

/-- The text of an array with keys stands for it if those of keys and values do. -/
theorem denotes_keyed (hkeep : ∀ c, isBlank c = false → keep c = true) {k v : Ty}
    (hk : Denotes .expression (k.render.toList.filter keep) k)
    (hv : Denotes .expression (v.render.toList.filter keep) v) (n : Bool) :
    Denotes .alternative ((Ty.keyed k v n).render.toList.filter keep) (.keyed k v n) := by
  have hw : isArrayWord (lowered "array".toList) = true := by decide
  have hspace : Text.Blank ([' '].filter keep) := fun c hc => by
    rw [List.mem_singleton.mp (List.mem_of_mem_filter hc)]
    decide
  have htext : ("array<" ++ k.render ++ ", " ++ v.render ++ ">").toList.filter keep
      = "array".toList ++ '<' :: (k.render.toList.filter keep ++ ',' ::
        (([' '].filter keep ++ (v.render.toList.filter keep ++ [])) ++ ['>'])) := by
    have hsplit : ("array<" ++ k.render ++ ", " ++ v.render ++ ">").toList
        = "array".toList ++ '<' ::
          (k.render.toList ++ ',' :: ([' '] ++ (v.render.toList ++ ['>']))) := by
      simp
    rw [hsplit, List.filter_append, filter_reserved hkeep (by decide),
      List.filter_cons_of_pos (hkeep _ (by decide)), List.filter_append,
      List.filter_cons_of_pos (hkeep _ (by decide)), List.filter_append, List.filter_append,
      List.filter_cons_of_pos (hkeep '>' (by decide)), List.filter_nil]
    simp only [List.append_nil, List.append_assoc]
  refine denotes_marked hkeep (t := .keyed k v false) ?_ rfl (ne_null_of_head (by simp)) n
  rw [htext]
  exact .bare (.keyed hw hk (.spaced hspace .nil hv))

/-! ### Unions -/

theorem exists_insertSorted_map {α : Type} (f : α → String) (x : α) (ys : List α) :
    ∃ zs : List α, zs.Perm (x :: ys) ∧ Text.insertSorted (f x) (ys.map f) = zs.map f := by
  induction ys with
  | nil => exact ⟨[x], .refl _, rfl⟩
  | cons y ys ih =>
    obtain ⟨zs, hperm, hzs⟩ := ih
    simp only [List.map_cons, Text.insertSorted]
    split
    · exact ⟨x :: y :: ys, .refl _, rfl⟩
    · refine ⟨y :: zs, (hperm.cons y).trans (.swap x y ys), ?_⟩
      rw [hzs, List.map_cons]

/-- Sorting texts puts the things they are the texts of into some order. -/
theorem exists_sorted_map {α : Type} (f : α → String) (xs : List α) :
    ∃ ys : List α, ys.Perm xs ∧ Text.sorted (xs.map f) = ys.map f := by
  induction xs with
  | nil => exact ⟨[], .refl _, rfl⟩
  | cons x xs ih =>
    obtain ⟨ys, hperm, hys⟩ := ih
    obtain ⟨zs, hperm', hzs⟩ := exists_insertSorted_map f x ys
    refine ⟨zs, hperm'.trans (hperm.cons x), ?_⟩
    rw [List.map_cons, ← hzs, ← hys]
    rfl

theorem denotes_null : Denotes .alternative Ty.null.render.toList .null :=
  .plain (.bare (.null (by decide)))

/-- Texts of alternatives joined by bars. -/
theorem denotes_intercalate {α : Type} {xs : List α} {text : α → List Char} {f : α → Ty}
    (hne : xs ≠ []) (h : ∀ x ∈ xs, Denotes .alternative (text x) (f x)) :
    Denotes .expression (['|'].intercalate (xs.map text)) (.merge (xs.map f)) := by
  have hall := @Denotes.alternatives (xs.map fun x => (text x, f x)) (by simpa using hne)
    fun p hp => by
      obtain ⟨x, hx, rfl⟩ := List.mem_map.mp hp
      exact h x hx
  simpa [Function.comp_def] using hall

private theorem intercalate_concat (sep u : List Char) : ∀ {texts : List (List Char)}, texts ≠ [] →
    sep.intercalate (texts ++ [u]) = sep.intercalate texts ++ (sep ++ u)
  | [t], _ => by simp [List.intercalate_cons_cons, List.intercalate_singleton]
  | t :: v :: vs, _ => by
    have ih := intercalate_concat sep u (List.cons_ne_nil v vs)
    rw [List.cons_append, List.cons_append, List.intercalate_cons_cons, List.intercalate_cons_cons,
      ← List.cons_append, ih]
    simp

/-- A union is written with its members in some order, and its flag as a last alternative. -/
theorem exists_render_union {ms : List Ty} (hne : ms ≠ []) (n : Bool) :
    ∃ xs : List Ty, xs.Perm ms ∧ xs ≠ [] ∧ (Ty.union ms n).render.toList
      = ['|'].intercalate ((if n then xs ++ [Ty.null] else xs).map fun t => t.render.toList) := by
  obtain ⟨xs, hperm, hxs⟩ := exists_sorted_map Ty.render ms
  have hnonempty : xs ≠ [] := fun heq => hne (List.perm_nil.mp (heq ▸ hperm).symm)
  have htext : (Ty.joinAlternatives (Ty.renderAll ms)).toList
      = ['|'].intercalate (xs.map fun t => t.render.toList) := by
    rw [Ty.joinAlternatives, Ty.renderAll_eq_map, hxs, Text.joined, String.toList_intercalate,
      List.map_map]
    rfl
  refine ⟨xs, hperm, hnonempty, ?_⟩
  cases n with
  | false => simp [Ty.render, htext]
  | true =>
    rw [if_pos rfl, List.map_append, List.map_singleton,
      intercalate_concat _ _ (by simpa using hnonempty), ← htext, Ty.render, if_pos rfl,
      String.toList_append]
    exact congrArg _ (by decide)

/-- The text of a union lists its members in some order, and merging them gives the union. -/
theorem denotes_union (hkeep : ∀ c, isBlank c = false → keep c = true) {ms : List Ty}
    (h : (Ty.union ms false).WellFormed)
    (hms : ∀ m ∈ ms, Denotes .alternative (m.render.toList.filter keep) m) (n : Bool) :
    Denotes .expression ((Ty.union ms n).render.toList.filter keep) (.union ms n) := by
  have hne : ms ≠ [] := List.ne_nil_of_length_pos (by have := h.1; omega)
  obtain ⟨xs, hperm, hxs, htext⟩ := exists_render_union hne n
  have hmem : ∀ t, t ∈ xs ↔ t ∈ ms := fun t => hperm.mem_iff
  have hxms : ∀ t ∈ xs, Denotes .alternative (t.render.toList.filter keep) t := fun t ht =>
    hms t ((hmem t).mp ht)
  rw [htext, Text.filter_intercalate (hkeep '|' (by decide)), List.map_map]
  cases n with
  | false =>
    have hall := denotes_intercalate hxs hxms
    rwa [List.map_id', Ty.merge_members h hmem] at hall
  | true =>
    have hlast : Denotes .alternative (Ty.null.render.toList.filter keep) .null := by
      have hrender : Ty.null.render = "null" := by decide
      rw [hrender, filter_reserved hkeep (by decide), ← hrender]
      exact denotes_null
    have hnull : ∀ t ∈ xs ++ [.null], Denotes .alternative (t.render.toList.filter keep) t :=
      fun t ht => by
        rcases List.mem_append.mp ht with ht | ht
        · exact hxms t ht
        · rw [List.mem_singleton.mp ht]
          exact hlast
    -- the flag is written as one more alternative, which merging turns into the flag again
    have hall := denotes_intercalate (by simp) hnull
    rwa [List.map_id', Ty.merge_members_null h hmem] at hall

/-! ### The round trip -/

/-- The text of a canonical type describes the type, also without some of its blanks. The text of a
type that is no union is one alternative. -/
theorem Canonical.denotes_filter (hkeep : ∀ c, isBlank c = false → keep c = true) {t : Ty}
    (h : Canonical t) : Denotes .expression (t.render.toList.filter keep) t ∧
      (t.isUnion = false → Denotes .alternative (t.render.toList.filter keep) t) := by
  -- a union needs its members as alternatives, an array needs its parts as expressions
  have single {u : Ty} (hu : Denotes .alternative (u.render.toList.filter keep) u) :
      Denotes .expression (u.render.toList.filter keep) u ∧
        (u.isUnion = false → Denotes .alternative (u.render.toList.filter keep) u) :=
    ⟨.single hu, fun _ => hu⟩
  induction h with
  | scalar k n =>
    have hword : isReserved k.word = true := by cases k <;> decide
    refine single (denotes_marked hkeep (t := .scalar k false) ?_ rfl (by cases k <;> decide) n)
    rw [filter_reserved hkeep hword]
    exact denotes_scalar k
  | @named s n h =>
    by_cases hnull : s = "null"
    · have hn : n = true := (h.null (by rw [hnull]; rfl)).2
      have hrender : (Ty.named s n).render = "null" := by rw [hnull, hn]; decide
      refine single ?_
      rw [hrender, filter_reserved hkeep (by decide), hnull, hn]
      exact denotes_null
    · refine single (denotes_marked hkeep (t := .named s false) ?_ rfl hnull n)
      rw [filter_nameChars hkeep h.chars]
      exact denotes_name h hnull
  | array n _ ih => exact single (denotes_array hkeep ih.1 n)
  | keyed n _ _ ihk ihv => exact single (denotes_keyed hkeep ihk.1 ihv.1 n)
  | @union ms n hlen hinc hms hcan ih =>
    have hwf : (Ty.union ms false).WellFormed :=
      (Canonical.union false hlen hinc hms hcan).wellFormed
    refine ⟨denotes_union hkeep hwf (fun m hm => (ih m hm).2 (hms m hm).2.1) n, fun hunion => ?_⟩
    cases hunion

end Kept

/-- A canonical type is read back from its text. -/
theorem Canonical.parse_render {t : Ty} (h : Canonical t) : parse t.render = .ok (some t) := by
  have hall := (@Canonical.denotes_filter (fun _ => true) (fun _ _ => rfl) t h).1
  rw [List.filter_true] at hall
  exact hall.expression_eq

/-- Reading the text of a canonical type gives the type back, so no other canonical type has the
same text. -/
theorem render_determines_type {t : Ty} (h : Canonical t) :
    parse t.render = .ok (some t) ∧ ∀ s : Ty, Canonical s → s.render = t.render → s = t := by
  refine ⟨h.parse_render, fun s hs heq => ?_⟩
  have hread := hs.parse_render
  rw [heq, h.parse_render] at hread
  exact (Option.some.inj (Except.ok.inj hread)).symm

/-- Arrays of a union with null, in and out of brackets. -/
theorem render_determines_type_union :
    Canonical
      (.array (.union [.scalar .int false, .array (.named "App\\User" true) false] true) true) ∧
    parse "?array<array<?App\\User>|int|null>" =
      .ok (some (.array (.union [.scalar .int false, .array (.named "App\\User" true) false] true)
        true)) := by
  have hname : IsCanonicalName "App\\User" true :=
    ⟨⟨List.all_eq_true.mp (by decide), by decide, by decide⟩, by decide, by decide, by decide,
      by decide⟩
  have hcan : Canonical
      (.array (.union [.scalar .int false, .array (.named "App\\User" true) false] true) true) := by
    refine .array _ (.union _ (by decide) (by unfold Ty.Increasing; decide) (by decide)
      fun m hm => ?_)
    rcases List.mem_pair.mp hm with rfl | rfl
    · exact .scalar _ _
    · exact .array _ (.named hname)
  have htext : Ty.render
      (.array (.union [.scalar .int false, .array (.named "App\\User" true) false] true) true)
        = "?array<array<?App\\User>|int|null>" := by decide +kernel
  exact ⟨hcan, htext ▸ (render_determines_type hcan).1⟩

/-- The name `NULL` meets every condition on canonical names that speaks of other words than the
lower-case `null`, and yet its text is read as the type `null`. -/
theorem capital_null_not_restored :
    IsPath "NULL" ∧ scalarAlias? (Text.asciiLower "NULL") = none ∧
      isArrayWord (Text.asciiLower "NULL") = false ∧ isKeyword (Text.asciiLower "NULL") = false ∧
      "NULL" ≠ "null" ∧ parse (Ty.named "NULL" false).render = .ok (some .null) ∧
      Ty.null ≠ .named "NULL" false := by
  have hdenotes : Denotes .expression (Ty.named "NULL" false).render.toList .null :=
    .single (.plain (.bare (.null (by decide))))
  exact ⟨⟨List.all_eq_true.mp (by decide), by decide, by decide⟩, by decide, by decide, by decide,
    by decide, hdenotes.expression_eq, by decide⟩

end TypeFacts.TypeText
