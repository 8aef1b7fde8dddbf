import TypeFacts.Proofs.Ty.Names
import TypeFacts.Proofs.TypeText.Qualification
import TypeFacts.Proofs.TypeText.RoundTrip

/-!
# Resolution goes through the type

A type text is resolved in a scope by replacing names in the text and reading the result. For the
text of a canonical type this is the same as replacing the class names in the type itself
(`resolve_render`): every class name is met, at any depth, and nothing else is, and the backslash
that is put in front of a full name is taken away again by the reader.

The proof goes along the type. The qualified text of each form is a phrase of the grammar that
describes the form with its names replaced (`Canonical.denotes_qualified`). Members of a union may
come to be the same class, so a union is merged anew, and a member that comes to be named `null`
turns into the flag (`null_import_sets_flag`).
-/

namespace TypeFacts

open TypeText (IsPath)

/-- A scope all of whose names are paths. -/
structure Scope.HasPaths (scope : Scope) : Prop where
  ns : scope.ns = "" ∨ IsPath scope.ns
  imports : ∀ name full, scope.imports.get? name = some full → IsPath full

namespace TypeText

/-- The name that a name in a type stands for. The words of the grammar stay. -/
def fullName (scope : Scope) (name : String) : String :=
  if isReserved name then name else scope.qualify name

/-- Does the name begin with a character that names begin with in a text? -/
def StartsAsName (name : String) : Prop :=
  name.toList.head?.any startsName = true

/-! ### Full names are paths -/

/-- Name characters behind a path and a backslash. -/
theorem IsPath.append {s t : String} (hs : IsPath s) (ht : ∀ c ∈ t.toList, isNameChar c = true) :
    IsPath (s ++ "\\" ++ t) := by
  obtain ⟨c, cs, hcs⟩ : ∃ c cs, s.toList = c :: cs :=
    List.exists_cons_of_ne_nil fun hnil => hs.nonempty (String.toList_eq_nil_iff.mp hnil)
  refine ⟨fun d hd => ?_, fun heq => ?_, ?_⟩
  · simp only [String.toList_append, List.mem_append] at hd
    rcases hd with (hd | hd) | hd
    · exact hs.chars d hd
    · obtain rfl : d = '\\' := by simpa using hd
      decide
    · exact ht d hd
  · have hlist := congrArg String.toList heq
    simp [hcs] at hlist
  · have hplain := hs.plain
    simp only [String.toList_append, hcs, List.cons_append, List.head?_cons] at hplain ⊢
    exact hplain

/-- What stands behind the first backslash of a name. -/
theorem nameChars_cutAt {cs : List Char} (h : ∀ c ∈ cs, isNameChar c = true) :
    ∀ c ∈ ((Text.cutAt '\\' cs).getD (cs, [])).2, isNameChar c = true := by
  intro c hc
  unfold Text.cutAt at hc
  split at hc
  · cases hc
  · next d rest hrest =>
    have hmem : c ∈ cs.dropWhile (· != '\\') := hrest ▸ List.mem_cons_of_mem d hc
    exact h c (List.dropWhile_sublist _ |>.subset hmem)

theorem Scope.HasPaths.qualify {scope : Scope} {s : String} (hscope : scope.HasPaths)
    (h : IsPath s) : IsPath (scope.qualify s) := by
  unfold Scope.qualify
  split
  · next cs hcs => exact absurd (by rw [hcs]; rfl) h.plain
  · next cs hcs => exact h
  · split
    · exact h
    · dsimp only
      split
      · next full hfull =>
        have hpath := hscope.imports _ _ hfull
        split
        · exact hpath
        · exact hpath.append fun c hc => nameChars_cutAt h.chars c (by simpa using hc)
      · unfold Scope.underNamespace
        split
        · exact h
        · next hns =>
          rcases hscope.ns with hempty | hpath
          · exact absurd (by rw [hempty]; rfl) hns
          · exact hpath.append h.chars

/-! ### Qualified phrases -/

section Phrases

variable {scope : Scope}

/-- A path with a backslash in front is a class name, whatever word the path is. -/
theorem IsPath.denotes_absolute {s : String} (h : IsPath s) :
    Denotes .suffixed ('\\' :: s.toList) (.named s false) := by
  have hclass : IsClassName ('\\' :: s.toList) := by
    refine ⟨List.forall_mem_cons.mpr ⟨by decide, h.chars⟩, ?_, ?_⟩
    · rw [Text.dropBackslashes_cons_backslash, h.dropBackslashes]
      simpa using h.nonempty
    · exact Bool.eq_false_iff.mpr fun hres =>
        not_mem_backslash_of_isReserved hres List.mem_cons_self
  have hdenotes := Denotes.bare (.className hclass)
  rwa [nameType, Text.dropBackslashes_cons_backslash, h.dropBackslashes, String.ofList_toList]
    at hdenotes

/-- The qualified text of a canonical name other than `null`. -/
theorem denotes_qualified_name {s : String} {n : Bool} (hscope : scope.HasPaths)
    (h : IsCanonicalName s n) (hstart : StartsAsName s) (hnull : s ≠ "null") :
    Denotes .suffixed (qualifyAfter scope.qualify none s.toList)
      (.named (fullName scope s) false) := by
  have hqualify : qualifyAfter scope.qualify none s.toList = qualifyName scope.qualify s.toList :=
    (qualifyAfter_nameChars scope.qualify h.chars).trans (if_pos hstart)
  have hplain : (s.toList.head? == some '\\') = false := by simpa using h.plain
  rw [hqualify, qualifyName, fullName]
  simp only [String.ofList_toList, hplain, Bool.false_or]
  split
  · exact denotes_name h hnull
  · have hpath := Scope.HasPaths.qualify hscope h.toIsPath
    rw [hpath.dropBackslashes]
    exact hpath.denotes_absolute

/-- The mark of a nullable type stays in front of its qualified text. -/
theorem denotes_qualified_marked {text : String} {t : Ty}
    (h : Denotes .suffixed (qualifyAfter scope.qualify none text.toList) t)
    (ht : t.nullable = false) (hnull : text ≠ "null") (n : Bool) :
    Denotes .alternative (qualifyAfter scope.qualify none (Ty.marked n text).toList)
      (t.withNullable n) := by
  cases n with
  | false =>
    rw [Ty.withNullable_eq_self ht]
    exact .plain h
  | true =>
    have hmark : (Ty.marked true text).toList = '?' :: text.toList := by
      simp [Ty.marked, hnull]
    rw [hmark, qualifyAfter_joint scope.qualify (by decide)]
    exact .optional h

theorem qualify_reserved {w : String} (h : isReserved w = true) :
    qualifyAfter scope.qualify none w.toList = w.toList :=
  qualifyAfter_of_isReserved scope.qualify (by rwa [String.ofList_toList])

theorem denotes_qualified_array {v u : Ty}
    (h : Denotes .expression (qualifyAfter scope.qualify none v.render.toList) u)
    (hmixed : (v.isMixed && !v.nullable) = true → u = .mixed) (n : Bool) :
    Denotes .alternative (qualifyAfter scope.qualify none (Ty.array v n).render.toList)
      (.array u n) := by
  rw [Ty.render]
  by_cases hv : (v.isMixed && !v.nullable) = true
  · rw [if_pos hv, hmixed hv]
    refine denotes_qualified_marked (t := .anyArray) ?_ rfl (by decide) n
    rw [qualify_reserved (by decide)]
    exact .bare (.anyArray (by decide))
  · rw [if_neg hv]
    have hw : isArrayWord (lowered "array".toList) = true := by decide
    have htext : qualifyAfter scope.qualify none ("array<" ++ v.render ++ ">").toList
        = "array".toList ++ '<' :: (qualifyAfter scope.qualify none v.render.toList ++ ['>']) := by
      have hsplit : ("array<" ++ v.render ++ ">").toList
          = "array".toList ++ '<' :: (v.render.toList ++ '>' :: []) := by simp
      rw [hsplit, qualifyAfter_append_joint scope.qualify (by decide), qualify_reserved (by decide),
        qualifyAfter_append_joint scope.qualify (by decide), qualifyAfter_nil]
    refine denotes_qualified_marked (t := .array u false) ?_ rfl (ne_null_of_head (by simp)) n
    rw [htext]
    exact .bare (.array hw h)

theorem denotes_qualified_keyed {k v k' v' : Ty}
    (hk : Denotes .expression (qualifyAfter scope.qualify none k.render.toList) k')
    (hv : Denotes .expression (qualifyAfter scope.qualify none v.render.toList) v') (n : Bool) :
    Denotes .alternative (qualifyAfter scope.qualify none (Ty.keyed k v n).render.toList)
      (.keyed k' v' n) := by
  have hw : isArrayWord (lowered "array".toList) = true := by decide
  have htext : qualifyAfter scope.qualify none
        ("array<" ++ k.render ++ ", " ++ v.render ++ ">").toList
      = "array".toList ++ '<' :: (qualifyAfter scope.qualify none k.render.toList ++ ',' ::
        (([' '] ++ (qualifyAfter scope.qualify none v.render.toList ++ [])) ++ ['>'])) := by
    have hsplit : ("array<" ++ k.render ++ ", " ++ v.render ++ ">").toList
        = "array".toList ++
          '<' :: (k.render.toList ++ ',' :: (' ' :: (v.render.toList ++ '>' :: []))) := by
      simp
    rw [hsplit, qualifyAfter_append_joint scope.qualify (by decide), qualify_reserved (by decide),
      qualifyAfter_append_joint scope.qualify (by decide),
      qualifyAfter_joint scope.qualify (by decide),
      qualifyAfter_append_joint scope.qualify (by decide), qualifyAfter_nil]
    simp
  refine denotes_qualified_marked (t := .keyed k' v' false) ?_ rfl (ne_null_of_head (by simp)) n
  rw [htext]
  exact .bare (.keyed hw hk (.spaced (by decide) .nil hv))

/-- The qualified text of a union describes the merge of what the qualified texts of its members
describe, with the flag of the union. -/
theorem denotes_qualified_union {ms : List Ty} {f : Ty → Ty} (hne : ms ≠ [])
    (hnull : f .null = .null)
    (hms : ∀ m ∈ ms, Denotes .alternative (qualifyAfter scope.qualify none m.render.toList) (f m))
    (n : Bool) :
    Denotes .expression (qualifyAfter scope.qualify none (Ty.union ms n).render.toList)
      (if n then (Ty.merge (ms.map f)).withNullable true else .merge (ms.map f)) := by
  obtain ⟨xs, hperm, hxs, htext⟩ := exists_render_union hne n
  have hxms : ∀ x ∈ xs,
      Denotes .alternative (qualifyAfter scope.qualify none x.render.toList) (f x) :=
    fun x hx => hms x (hperm.mem_iff.mp hx)
  have hmerge : Ty.merge (ms.map f) = .merge (xs.map f) :=
    Ty.merge_congr fun t => (hperm.map f).mem_iff.symm
  rw [htext, qualifyAfter_intercalate scope.qualify (by decide), List.map_map, hmerge]
  cases n with
  | false => exact denotes_intercalate hxs hxms
  | true =>
    have hwf : ∀ t ∈ xs.map f, t.WellFormed := fun t ht => by
      obtain ⟨x, hx, rfl⟩ := List.mem_map.mp ht
      exact ReadsExpression.wellFormed (Denotes.single (hxms x hx)).reads
    have hlast : Denotes .alternative (qualifyAfter scope.qualify none Ty.null.render.toList)
        (f .null) := by
      have hrender : Ty.null.render.toList = "null".toList := by decide
      rw [hnull, hrender, qualify_reserved (by decide)]
      exact denotes_null
    have hxms' : ∀ x ∈ xs ++ [Ty.null],
        Denotes .alternative (qualifyAfter scope.qualify none x.render.toList) (f x) :=
          fun x hx => by
      rcases List.mem_append.mp hx with hx | hx
      · exact hxms x hx
      · rw [List.mem_singleton.mp hx]
        exact hlast
    have hall := denotes_intercalate (by simp) hxms'
    rwa [List.map_append (f := f), List.map_singleton (f := f), hnull,
      Ty.merge_concat_null (by simpa using hxs) hwf] at hall

end Phrases

/-! ### Resolution of canonical types -/

section Canonical

variable {scope : Scope}

theorem fullName_of_isReserved {name : String} (h : isReserved name = true) :
    fullName scope name = name :=
  if_pos h

/-- The qualified text of a canonical type describes the type with its names replaced; if the type
is no union, the text is one alternative. -/
theorem Canonical.denotes_qualified {t : Ty} (hscope : scope.HasPaths) (h : Canonical t)
    (hnames : t.AllNames StartsAsName) :
    Denotes .expression (qualifyAfter scope.qualify none t.render.toList)
        (t.mapNames (fullName scope)) ∧
      (t.isUnion = false → Denotes .alternative (qualifyAfter scope.qualify none t.render.toList)
        (t.mapNames (fullName scope))) := by
  have single {u : Ty} (hu : Denotes .alternative (qualifyAfter scope.qualify none u.render.toList)
        (u.mapNames (fullName scope))) :
      Denotes .expression (qualifyAfter scope.qualify none u.render.toList)
          (u.mapNames (fullName scope)) ∧
        (u.isUnion = false → Denotes .alternative (qualifyAfter scope.qualify none u.render.toList)
          (u.mapNames (fullName scope))) :=
    ⟨.single hu, fun _ => hu⟩
  have hnull : Ty.null.mapNames (fullName scope) = .null :=
    congrArg (Ty.named · true) (fullName_of_isReserved (by decide))
  induction h with
  | scalar k n =>
    refine single (denotes_qualified_marked (t := .scalar k false) ?_ rfl (by cases k <;> decide) n)
    rw [qualify_reserved (by cases k <;> decide)]
    exact denotes_scalar k
  | @named s n h =>
    by_cases hs : s = "null"
    · have hn : n = true := (h.null (by rw [hs]; rfl)).2
      have hrender : (Ty.named s n).render.toList = "null".toList := by rw [hs, hn]; decide
      refine single ?_
      rw [hrender, qualify_reserved (by decide), hs, hn]
      exact hnull ▸ denotes_null
    · exact single (denotes_qualified_marked (denotes_qualified_name hscope h hnames hs) rfl hs n)
  | @array v n _ ih =>
    refine single (denotes_qualified_array (ih hnames).1 (fun hv => ?_) n)
    rw [eq_mixed_of_bare hv]
    exact congrArg (Ty.named · false) (fullName_of_isReserved (by decide))
  | keyed n _ _ ihk ihv =>
    exact single (denotes_qualified_keyed (ihk hnames.1).1 (ihv hnames.2).1 n)
  | @union ms n hlen hinc hms hcan ih =>
    have hall := Ty.allNamesIn_iff.mp hnames
    refine ⟨?_, fun hunion => by cases hunion⟩
    rw [Ty.mapNames_union]
    exact denotes_qualified_union (List.ne_nil_of_length_pos (by omega)) hnull
      (fun m hm => (ih m hm (hall m hm)).2 (hms m hm).2.1) n

theorem Canonical.resolve_eq {t : Ty} (hscope : scope.HasPaths) (h : Canonical t)
    (hnames : t.AllNames StartsAsName) :
    resolve scope t.render = .ok (some (t.mapNames (fullName scope))) := by
  rw [resolve, parse, qualify, String.toList_ofList]
  exact (h.denotes_qualified hscope hnames).1.expression_eq

/-- Resolving the text of a canonical type replaces the class names in the type and merges its
unions anew. The flag stays, unless a member of a union comes to be `null`. -/
theorem resolve_render {t : Ty} (hscope : scope.HasPaths) (h : Canonical t)
    (hnames : t.AllNames StartsAsName) :
    resolve scope t.render = .ok (some (t.mapNames (fullName scope))) ∧
      ((∀ m ∈ t.members, (m.mapNames (fullName scope)).isNull = true → m.isNull = true) →
        (t.mapNames (fullName scope)).nullable = t.nullable) :=
  ⟨h.resolve_eq hscope hnames, Ty.nullable_mapNames h.wellFormed⟩

end Canonical

/-- A scope with the imports and no namespace or a path as its namespace. -/
theorem hasPaths_ofList {ns : String} {pairs : List (String × String)} (hns : ns = "" ∨ IsPath ns)
    (h : ∀ p ∈ pairs, IsPath p.2) : Scope.HasPaths { ns := ns, imports := .ofList pairs } where
  ns := hns
  imports := fun name full hget => by
    obtain ⟨before, after, heq, -⟩ := Table.get?_ofList_eq_some.mp hget
    exact h (name, full) (by simp [heq])

/-- A scope in which two names mean one class. -/
def aliasScope : Scope where
  ns := "App"
  imports := .ofList [("User", "Lib\\User"), ("Person", "Lib\\User")]

/-- A type in which both names stand in one union. -/
def aliasType : Ty :=
  .keyed (.named "Key" true)
    (.union [.scalar .int false, .named "User" false, .named "Person" false] true) false

theorem resolve_render_collapse :
    aliasScope.HasPaths ∧ Canonical aliasType ∧ aliasType.AllNames StartsAsName ∧
    resolve aliasScope "array<?Key, Person|User|int|null>" =
      .ok (some (.keyed (.named "App\\Key" true)
        (.union [.scalar .int false, .named "Lib\\User" false] true) false)) := by
  have hscope : aliasScope.HasPaths := hasPaths_ofList (by decide) (by decide)
  have hcan : Canonical aliasType := by
    refine .keyed _ (.named (by decide)) (.union _ (by decide) (by unfold Ty.Increasing; decide)
      (by decide) ?_)
    simp only [List.forall_mem_cons]
    exact ⟨.scalar _ _, .named (by decide), .named (by decide), by simp⟩
  have hnames : aliasType.AllNames StartsAsName := by
    simp only [aliasType, Ty.AllNames, Ty.AllNamesIn, StartsAsName]
    decide
  have hvalues : aliasType.render = "array<?Key, Person|User|int|null>" ∧
      aliasType.mapNames (fullName aliasScope) = .keyed (.named "App\\Key" true)
        (.union [.scalar .int false, .named "Lib\\User" false] true) false := by
    decide +kernel
  have hresolve := (resolve_render hscope hcan hnames).1
  rw [hvalues.1, hvalues.2] at hresolve
  exact ⟨hscope, hcan, hnames, hresolve⟩

/-- A union whose member comes to be `null` by an import gets the flag. The name `NULL` is no class
and stays, but its text is read as the type `null`. -/
theorem null_import_sets_flag :
    Canonical (.union [.scalar .int false, .named "Foo" false] false) ∧
    Ty.render (.union [.scalar .int false, .named "Foo" false] false) = "Foo|int" ∧
    Scope.HasPaths { imports := .ofList [("Foo", "null")] } ∧
    resolve { imports := .ofList [("Foo", "null")] } "Foo|int" = .ok (some (.scalar .int true)) ∧
    (Ty.named "NULL" false).mapNames (fullName {}) = .named "NULL" false ∧
    resolve {} (Ty.named "NULL" false).render = .ok (some .null) := by
  have hcan : Canonical (.union [.scalar .int false, .named "Foo" false] false) := by
    refine .union _ (by decide) (by unfold Ty.Increasing; decide) (by decide) ?_
    simp only [List.forall_mem_cons]
    exact ⟨.scalar _ _, .named (by decide), by simp⟩
  have hscope : Scope.HasPaths { imports := .ofList [("Foo", "null")] } :=
    hasPaths_ofList (by decide) (by decide)
  have hvalues : Ty.render (.union [.scalar .int false, .named "Foo" false] false) = "Foo|int" ∧
      resolve { imports := .ofList [("Foo", "null")] } "Foo|int" = .ok (some (.scalar .int true)) ∧
      (Ty.named "NULL" false).mapNames (fullName {}) = .named "NULL" false ∧
      resolve {} (Ty.named "NULL" false).render = .ok (some .null) := by
    decide +kernel
  exact ⟨hcan, hvalues.1, hscope, hvalues.2⟩

end TypeText

end TypeFacts
