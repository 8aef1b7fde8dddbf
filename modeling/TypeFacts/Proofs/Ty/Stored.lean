import TypeFacts.Proofs.Ty.Merging
import TypeFacts.Ty.Json

/-!
# Reading stored descriptors

The members of a union are a set, and a stored form may list them in any order. A descriptor with
its unions listed anyhow is a listing of the descriptor that it becomes when all members are sorted
(`Ty.normal`). The stored form of every listing of a valid descriptor is read as the descriptor
(`Ty.checkAt_toJson`), where the limits admit all its chains of forms (`Ty.Admitted`). Where they
refuse one, nothing is read (`Ty.fails_checkAt_toJson`).
-/

namespace TypeFacts

/-! ### Checks that pass -/

namespace Checked

variable {α β : Type}

@[simp] theorem map_ok (f : α → β) (x : α) : f <$> ok x = ok (f x) := rfl

@[simp] theorem seq_ok (f : α → β) (x : α) : ok f <*> ok x = ok (f x) := rfl

@[simp] theorem within_ok (step : String) (x : α) : within step (ok x) = ok x := rfl

@[simp] theorem andThen_ok (x : α) (f : α → Checked β) : (ok x).andThen f = f x := rfl

/-- Does the check fail? -/
def Fails (x : Checked α) : Prop := ∃ cs, x = faulty cs

/-- A complaint is a failure. -/
theorem fails_complain (cause : Cause) : (complain cause : Checked α).Fails := ⟨_, rfl⟩

theorem Fails.map {x : Checked α} (h : x.Fails) (f : α → β) : (f <$> x).Fails := by
  obtain ⟨cs, rfl⟩ := h
  exact ⟨cs, rfl⟩

theorem Fails.within {x : Checked α} (h : x.Fails) (step : String) : (x.within step).Fails := by
  obtain ⟨cs, rfl⟩ := h
  exact ⟨_, rfl⟩

/-- A part that fails makes the whole fail, whatever the parts in front are like. -/
theorem Fails.seq_right {x : Checked α} (h : x.Fails) (f : Checked (α → β)) : (f <*> x).Fails := by
  obtain ⟨cs, rfl⟩ := h
  cases f with
  | ok f => exact ⟨cs, rfl⟩
  | faulty ds => exact ⟨ds ++ cs, rfl⟩

/-- A part that fails makes the whole fail, whatever the part behind is like. -/
theorem Fails.seq_left {f : Checked (α → β)} (h : f.Fails) (x : Checked α) : (f <*> x).Fails := by
  obtain ⟨cs, rfl⟩ := h
  cases x with
  | ok x => exact ⟨cs, rfl⟩
  | faulty ds => exact ⟨cs ++ ds, rfl⟩

theorem Fails.andThen {x : Checked α} (h : x.Fails) (f : α → Checked β) : (x.andThen f).Fails := by
  obtain ⟨cs, rfl⟩ := h
  exact ⟨cs, rfl⟩

/-- What fails does not pass. -/
theorem Fails.ne_ok {x : Checked α} (h : x.Fails) (a : α) : x ≠ ok a := by
  obtain ⟨cs, rfl⟩ := h
  simp

/-- One check that fails makes all fail together. -/
theorem fails_all_of_mem {x : Checked α} (h : x.Fails) :
    ∀ {xs : List (Checked α)}, x ∈ xs → (all xs).Fails
  | y :: ys, hmem => by
    rcases List.mem_cons.mp hmem with rfl | hmem
    · exact Fails.seq_left (h.map List.cons) _
    · exact Fails.seq_right (fails_all_of_mem h hmem) _

@[simp] theorem nullable_null (check : Json → Checked α) : nullable check .null = ok none := rfl

/-- Items that all pass their check give the list of their values. -/
theorem all_itemChecks {check : Json → Checked β} {f : α → Json} {g : α → β} :
    ∀ {xs : List α} {i : Nat}, (∀ x ∈ xs, check (f x) = ok (g x)) →
      all (itemChecks check i (xs.map f)) = ok (xs.map g)
  | [], _, _ => rfl
  | x :: xs, i, h => by
    have ih := all_itemChecks (i := i + 1) fun y hy => h y (List.mem_cons_of_mem x hy)
    simp only [List.map_cons, itemChecks, all, h x List.mem_cons_self, ih]
    rfl

/-- An item that fails its check makes the list fail. -/
theorem fails_all_itemChecks {check : Json → Checked β} {j : Json} (h : (check j).Fails) :
    ∀ {js : List Json} {i : Nat}, j ∈ js → (all (itemChecks check i js)).Fails
  | k :: ks, i, hmem => by
    rcases List.mem_cons.mp hmem with rfl | hmem
    · exact fails_all_of_mem (h.within _) List.mem_cons_self
    · exact Fails.seq_right (fails_all_itemChecks h hmem) _

end Checked

namespace Ty

/-! ### Listings -/

mutual

/-- The descriptor with the members of all its unions sorted and taken once. -/
def normal : Ty → Ty
  | scalar k n => scalar k n
  | named s n => named s n
  | array v n => array v.normal n
  | keyed k v n => keyed k.normal v.normal n
  | union ms n => union (memberSet (normals ms)) n

/-- The normal forms of several descriptors. -/
def normals : List Ty → List Ty
  | [] => []
  | t :: ts => t.normal :: normals ts

end

/-- The members of a union are listed one by one. -/
theorem normals_eq_map (ts : List Ty) : normals ts = ts.map normal := by
  induction ts with
  | nil => rfl
  | cons t ts ih => rw [normals, ih, List.map_cons]

theorem toJsonAll_eq_map (ts : List Ty) : toJsonAll ts = ts.map toJson := by
  induction ts with
  | nil => rfl
  | cons t ts ih => rw [toJsonAll, ih, List.map_cons]

/-- The descriptors that can be built: names have a character, and a union has at least two members,
none of them a union or nullable. -/
inductive Valid : Ty → Prop
  | scalar (k : ScalarKind) (n : Bool) : Valid (scalar k n)
  | named {s : String} (n : Bool) : s ≠ "" → Valid (named s n)
  | array {v : Ty} (n : Bool) : Valid v → Valid (array v n)
  | keyed {k v : Ty} (n : Bool) : Valid k → Valid v → Valid (keyed k v n)
  | union {ms : List Ty} (n : Bool) : 2 ≤ ms.length → Increasing ms →
      (∀ m ∈ ms, m.isUnion = false ∧ m.nullable = false) → (∀ m ∈ ms, Valid m) → Valid (union ms n)

/-- A valid descriptor is its own normal form. -/
theorem Valid.normal_eq {t : Ty} (h : t.Valid) : t.normal = t := by
  induction h with
  | scalar k n => rfl
  | named n _ => rfl
  | array n _ ih => rw [normal, ih]
  | keyed n _ _ ihk ihv => rw [normal, ihk, ihv]
  | @union ms n _ hinc _ _ ih =>
    have hms : ms.map normal = ms := by
      conv_rhs => rw [← List.map_id ms]
      exact List.map_congr_left ih
    rw [normal, normals_eq_map, hms, memberSet_eq_of_mem_iff hinc fun _ => Iff.rfl]

/-! ### Chains of forms -/

/-- Are all chains of the descriptor admitted, when it stands in the given forms? -/
def Admitted (admits : List Form → Bool) (around : List Form) (t : Ty) : Prop :=
  ∀ chain ∈ t.chains around, admits chain = true

section Admitted

variable {admits : List Form → Bool} {around : List Form}

/-- The chains of the members are collected one after the other. -/
theorem chainsOfAll_eq_flatMap (around : List Form) (ts : List Ty) :
    chainsOfAll around ts = ts.flatMap (chains around) := by
  induction ts with
  | nil => rfl
  | cons t ts ih => rw [chainsOfAll, ih, List.flatMap_cons]

/-- A scalar adds itself to the chain around it. -/
theorem admitted_scalar {k : ScalarKind} {n : Bool} :
    (scalar k n).Admitted admits around ↔ admits (.scalar :: around) = true := by
  simp [Admitted, chains]

theorem admitted_named {s : String} {n : Bool} :
    (named s n).Admitted admits around ↔ admits (.named :: around) = true := by
  simp [Admitted, chains]

/-- An array is admitted if it is and its values are below it. -/
theorem admitted_array {v : Ty} {n : Bool} : (array v n).Admitted admits around ↔
    admits (.array :: around) = true ∧ v.Admitted admits (.array :: around) := by
  simp [Admitted, chains]

/-- With keys, these have to be admitted, too. -/
theorem admitted_keyed {k v : Ty} {n : Bool} : (keyed k v n).Admitted admits around ↔
    admits (.array :: around) = true ∧ k.Admitted admits (.array :: around) ∧
      v.Admitted admits (.array :: around) := by
  simp only [Admitted, chains, List.forall_mem_cons, List.forall_mem_append]

/-- A union is admitted if it is and all its members are below it. -/
theorem admitted_union {ms : List Ty} {n : Bool} : (union ms n).Admitted admits around ↔
    admits (.union :: around) = true ∧ ∀ m ∈ ms, m.Admitted admits (.union :: around) := by
  simp only [Admitted, chains, chainsOfAll_eq_flatMap, List.forall_mem_cons, List.mem_flatMap]
  exact and_congr_right fun _ =>
    ⟨fun h m hm chain hc => h chain ⟨m, hm, hc⟩, fun h chain ⟨m, hm, hc⟩ => h m hm chain hc⟩

/-- What is admitted does not depend on the order in which members are listed. -/
theorem admitted_normal (w : Ty) (around : List Form) :
    w.normal.Admitted admits around ↔ w.Admitted admits around :=
  match w with
  | scalar k n => Iff.rfl
  | named s n => Iff.rfl
  | array v n => by
    have ih := admitted_normal v (.array :: around)
    rw [normal, admitted_array, admitted_array, ih]
  | keyed k v n => by
    have ihk := admitted_normal k (.array :: around)
    have ihv := admitted_normal v (.array :: around)
    rw [normal, admitted_keyed, admitted_keyed, ihk, ihv]
  | union ms n => by
    have ih : ∀ m ∈ ms, m.normal.Admitted admits (.union :: around) ↔
        m.Admitted admits (.union :: around) := fun m hm => admitted_normal m _
    rw [normal, admitted_union, admitted_union, normals_eq_map]
    simp only [mem_memberSet, List.forall_mem_map]
    exact and_congr_right fun _ => forall₂_congr ih
termination_by w
decreasing_by
  all_goals simp_wf
  all_goals first
    | omega
    | have := List.sizeOf_lt_of_mem hm; omega

end Admitted

/-! ### Reading by form -/

section Forms

variable {limits : Limits} {around : List Form}

/-- A form that may be read here is read. -/
theorem enter_of_reads {form : Form} {check : List Form → Checked Ty}
    (h : limits.reads (form :: around) = true) :
    enter limits around form check = check (form :: around) :=
  if_pos h

/-- What fails within a descriptor, if it is read there at all, makes the descriptor fail. -/
theorem fails_enter {form : Form} {check : List Form → Checked Ty}
    (h : limits.reads (form :: around) = true → (check (form :: around)).Fails) :
    (enter limits around form check).Fails := by
  unfold enter
  split
  · next hreads => exact h hreads
  · exact Checked.fails_complain _

/-- The members of a union are checked one by one, each under its index. -/
theorem checkItems_eq (i : Nat) (xs : List Json) :
    checkItems limits around i xs = Checked.itemChecks (checkAt limits around) i xs := by
  induction xs generalizing i with
  | nil =>
    rw [checkItems]
    rfl
  | cons x xs ih =>
    rw [checkItems, ih]
    rfl

/-- A stored array is read field by field. -/
theorem checkAt_array {fields : List (String × Json)}
    (h : Pairs.get? "variant" fields = some (.str "array")) : checkAt limits around (.obj fields) =
      .within "array" (enter limits around .array fun inner =>
        (fun n k v => arrayOf k v n) <$> .optional "nullable" false .bool fields <*>
          .optional "key_type" none (.nullable (checkAt limits inner)) fields <*>
          .optional "value_type" mixed (checkAt limits inner) fields) := by
  rw [checkAt]
  simp only [h]
  refine congrArg _ (congrArg _ (funext fun inner => ?_))
  -- the definition looks up the fields itself, so that the recursion is seen to end
  refine congrArg₂ _ (congrArg₂ _ rfl ?_) ?_
  · unfold Checked.optional
    cases Pairs.get? "key_type" fields with
    | none => rfl
    | some j => cases j <;> rfl
  · unfold Checked.optional
    cases Pairs.get? "value_type" fields <;> rfl

/-- A scalar is read from its kind and its flag. -/
theorem checkAt_scalar {fields : List (String × Json)}
    (h : Pairs.get? "variant" fields = some (.str "scalar")) : checkAt limits around (.obj fields) =
      .within "scalar" (enter limits around .scalar fun _ =>
        (fun n k => scalar k n) <$> .optional "nullable" false .bool fields <*>
          .required "kind" (.word ["int", "float", "string", "bool"] ScalarKind.ofWord?)
            fields) := by
  rw [checkAt]
  simp only [h]

/-- A class is read from its name, which may not be empty, and its flag. -/
theorem checkAt_named {fields : List (String × Json)}
    (h : Pairs.get? "variant" fields = some (.str "named")) : checkAt limits around (.obj fields) =
      .within "named" (enter limits around .named fun _ =>
        (fun n s => named s n) <$> .optional "nullable" false .bool fields <*>
          .required "type_name" .nonEmptyText fields) := by
  rw [checkAt]
  simp only [h]

/-- A stored union is read field by field, and then its members are checked together. -/
theorem checkAt_union {fields : List (String × Json)} {xs : List Json}
    (h : Pairs.get? "variant" fields = some (.str "union"))
    (hms : Pairs.get? "members" fields = some (.arr xs)) : checkAt limits around (.obj fields) =
      .within "union" (enter limits around .union fun inner =>
        Checked.andThen
          (Prod.mk <$> .optional "nullable" false .bool fields <*>
            .within "members" (.all (Checked.itemChecks (checkAt limits inner) 0 xs)))
          fun (n, ms) => checkUnion ms n) := by
  rw [checkAt]
  simp only [h]
  refine congrArg _ (congrArg _ (funext fun inner => ?_))
  rw [← checkItems_eq]
  split
  · next heq => cases hms.symm.trans heq
  · next heq =>
    cases hms.symm.trans heq
    rfl
  · next hother heq =>
    cases hms.symm.trans heq
    exact absurd rfl (hother xs)

/-! ### The round trip -/

@[simp] theorem nullable_toJson {α : Type} (check : Json → Checked α) (t : Ty) :
    Checked.nullable check t.toJson = .map some (check t.toJson) := by
  cases t <;> rfl

/-- Members of which at least two differ, none of them a union or nullable, make a union. -/
theorem checkUnion_eq_ok {ms : List Ty} (n : Bool) (hlen : 2 ≤ (memberSet ms).length)
    (hms : ∀ m ∈ memberSet ms, m.isUnion = false ∧ m.nullable = false) :
    checkUnion ms n = .ok (union (memberSet ms) n) := by
  have hunion : (memberSet ms).any isUnion = false :=
    List.any_eq_false.mpr fun m hm => by simp [(hms m hm).1]
  have hnull : (memberSet ms).any nullable = false :=
    List.any_eq_false.mpr fun m hm => by simp [(hms m hm).2]
  rw [checkUnion, if_neg (Nat.not_lt.mpr hlen), hunion, hnull]
  rfl

end Forms

/-- The stored form of a listing is read as what it lists. -/
theorem checkAt_toJson (w : Ty) {limits : Limits} {around : List Form} (hvalid : w.normal.Valid)
    (hreads : w.Admitted limits.reads around) : checkAt limits around w.toJson = .ok w.normal :=
  match w, hvalid with
  | scalar k n, _ => by
    rw [toJson, checkAt_scalar (by rfl), enter_of_reads (admitted_scalar.mp hreads)]
    simp [Checked.optional, Checked.required, Pairs.get?, Checked.bool, Checked.word, normal]
  | named s n, .named _ hs => by
    rw [toJson, checkAt_named (by rfl), enter_of_reads (admitted_named.mp hreads)]
    simp [Checked.optional, Checked.required, Pairs.get?, Checked.bool, Checked.nonEmptyText,
      Checked.text, normal, hs]
  | array v n, .array _ hv => by
    obtain ⟨hhere, hinner⟩ := admitted_array.mp hreads
    have ih := checkAt_toJson v hv hinner
    rw [toJson, checkAt_array (by rfl), enter_of_reads hhere]
    simp [Checked.optional, Pairs.get?, Checked.bool, normal, ih, arrayOf]
  | keyed k v n, .keyed _ hk hv => by
    obtain ⟨hhere, hkey, hvalue⟩ := admitted_keyed.mp hreads
    have ihk := checkAt_toJson k hk hkey
    have ihv := checkAt_toJson v hv hvalue
    rw [toJson, checkAt_array (by rfl), enter_of_reads hhere]
    simp [Checked.optional, Pairs.get?, Checked.bool, Checked.map, normal, ihk, ihv, arrayOf]
  | union ms n, .union _ hlen _ hms hvalid => by
    rw [normals_eq_map] at hlen hms hvalid
    obtain ⟨hhere, hmembers⟩ := admitted_union.mp hreads
    -- what is known is about the set of normal forms; each listed member has its own in there
    have hmem : ∀ m ∈ ms, m.normal ∈ memberSet (ms.map normal) := fun m hm =>
      mem_memberSet.mpr (List.mem_map_of_mem hm)
    have ih : ∀ m ∈ ms, checkAt limits (.union :: around) m.toJson = .ok m.normal := fun m hm =>
      checkAt_toJson m (hvalid _ (hmem m hm)) (hmembers m hm)
    rw [toJson, toJsonAll_eq_map, checkAt_union (by rfl) (by rfl), enter_of_reads hhere,
      Checked.all_itemChecks ih]
    simp [Checked.optional, Pairs.get?, Checked.bool, checkUnion_eq_ok n hlen hms, normal,
      normals_eq_map]
termination_by w
decreasing_by
  all_goals simp_wf
  all_goals first
    | omega
    | have := List.sizeOf_lt_of_mem hm; omega

/-! ### Chains that are refused -/

/-- A descriptor with a chain that is refused is not read. -/
theorem fails_checkAt_toJson (w : Ty) {limits : Limits} {around chain : List Form}
    (hchain : chain ∈ w.chains around) (hrefused : limits.reads chain = false) :
    (checkAt limits around w.toJson).Fails :=
  match w with
  | scalar k n => by
    obtain rfl := List.mem_singleton.mp hchain
    rw [toJson, checkAt_scalar (by rfl)]
    exact (fails_enter fun h => by simp [hrefused] at h).within _
  | named s n => by
    obtain rfl := List.mem_singleton.mp hchain
    rw [toJson, checkAt_named (by rfl)]
    exact (fails_enter fun h => by simp [hrefused] at h).within _
  | array v n => by
    rw [toJson, checkAt_array (by rfl)]
    refine (fails_enter fun hhere => ?_).within _
    rcases List.mem_cons.mp hchain with rfl | hinner
    · simp [hrefused] at hhere
    · exact ((fails_checkAt_toJson v hinner hrefused).within _).seq_right _
  | keyed k v n => by
    rw [toJson, checkAt_array (by rfl)]
    refine (fails_enter fun hhere => ?_).within _
    rcases List.mem_cons.mp hchain with rfl | hinner
    · simp [hrefused] at hhere
    · rcases List.mem_append.mp hinner with hkey | hvalue
      · have ih := fails_checkAt_toJson k hkey hrefused
        refine Checked.Fails.seq_left (Checked.Fails.seq_right (Checked.Fails.within ?_ _) _) _
        rw [nullable_toJson]
        exact ih.map some
      · exact ((fails_checkAt_toJson v hvalue hrefused).within _).seq_right _
  | union ms n => by
    rw [toJson, toJsonAll_eq_map, checkAt_union (by rfl) (by rfl)]
    refine (fails_enter fun hhere => ?_).within _
    rcases List.mem_cons.mp hchain with rfl | hinner
    · simp [hrefused] at hhere
    · rw [chainsOfAll_eq_flatMap] at hinner
      obtain ⟨m, hm, hmember⟩ := List.mem_flatMap.mp hinner
      have ih := fails_checkAt_toJson m hmember hrefused
      have hall := Checked.fails_all_itemChecks ih (i := 0) (List.mem_map_of_mem (f := toJson) hm)
      exact ((hall.within _).seq_right _).andThen _
termination_by w
decreasing_by
  all_goals simp_wf
  all_goals first
    | omega
    | have := List.sizeOf_lt_of_mem hm; omega

/-- The stored form of a listing is read exactly where all its chains are admitted. -/
theorem check_toJson_iff {w : Ty} {limits : Limits} (hvalid : w.normal.Valid) :
    check w.toJson limits = .ok w.normal ↔ w.Admitted limits.reads [] := by
  refine ⟨fun h chain hchain => ?_, checkAt_toJson w hvalid⟩
  by_contra hrefused
  exact (fails_checkAt_toJson w hchain (Bool.eq_false_iff.mpr hrefused)).ne_ok _ h

/-- Arrays of arrays, `n` of them around the type of anything. -/
def nested : Nat → Ty
  | 0 => mixed
  | n + 1 => array (nested n) false

/-- Arrays in arrays are valid types. -/
theorem nested_valid : ∀ n, (nested n).Valid
  | 0 => .named _ (by decide)
  | n + 1 => .array _ (nested_valid n)

/-- Among their chains is the one of all the arrays. -/
theorem mem_chains_nested (n : Nat) (around : List Form) :
    List.replicate (n + 1) .array ++ around ∈ (nested (n + 1)).chains around := by
  induction n generalizing around with
  | zero => exact List.mem_cons_self
  | succ n ih =>
    have hrow : List.replicate (n + 1 + 1) .array ++ around
        = List.replicate (n + 1) .array ++ (Form.array :: around) := by
      rw [List.replicate_succ', List.append_assoc, List.singleton_append]
    rw [hrow]
    exact List.mem_cons_of_mem _ (ih _)

end Ty

end TypeFacts
