/-!
# Tables in order of insertion

A table maps names to values and lists them in the order in which the names were first set; setting
a name again changes the value and keeps the place.

Main statements: looking up a name after setting one (`Pairs.get?_set`) or several
(`Table.get?_ofList_eq_some`), setting keeps the names distinct (`Pairs.nodup_set`).
-/

namespace TypeFacts

variable {α : Type}

namespace Pairs

/-- The value of the first pair with the name. -/
def get? (name : String) : List (String × α) → Option α
  | [] => none
  | (n, v) :: pairs => if n = name then some v else get? name pairs

/-- Sets the value of a name: in its place where it occurs, otherwise at the end. -/
def set (name : String) (value : α) : List (String × α) → List (String × α)
  | [] => [(name, value)]
  | (n, v) :: pairs => if n = name then (n, value) :: pairs else (n, v) :: set name value pairs

/-- The value of the set name is new, that of every other name is as before. -/
theorem get?_set (name other : String) (value : α) (pairs : List (String × α)) :
    get? other (set name value pairs) = if name = other then some value else get? other pairs := by
  induction pairs with
  | nil => simp [set, get?]
  | cons p pairs ih =>
    obtain ⟨n, v⟩ := p
    by_cases hn : n = name
    · subst hn
      by_cases ho : n = other <;> simp [set, get?, ho]
    · by_cases ho : n = other
      · subst ho
        simp [set, get?, hn, Ne.symm hn]
      · simp [set, get?, hn, ho, ih]

/-- Setting a name adds that name and no other. -/
theorem mem_names_set {name n : String} {value : α} {pairs : List (String × α)} :
    n ∈ (set name value pairs).map Prod.fst ↔ n = name ∨ n ∈ pairs.map Prod.fst := by
  induction pairs with
  | nil => simp [set]
  | cons p pairs ih =>
    obtain ⟨m, v⟩ := p
    by_cases hm : m = name
    · subst hm
      simp [set]
    · simp only [set, hm, if_false, List.map_cons, List.mem_cons, ih]
      constructor
      · rintro (h | h | h) <;> simp [h]
      · rintro (h | h | h) <;> simp [h]

/-- Setting a name keeps the names distinct. -/
theorem nodup_set {name : String} {value : α} {pairs : List (String × α)}
    (h : (pairs.map Prod.fst).Nodup) : ((set name value pairs).map Prod.fst).Nodup := by
  induction pairs with
  | nil => simp [set]
  | cons p pairs ih =>
    obtain ⟨m, v⟩ := p
    rw [List.map_cons, List.nodup_cons] at h
    by_cases hm : m = name
    · subst hm
      simp only [set, if_true, List.map_cons, List.nodup_cons]
      exact h
    · rw [set, if_neg hm, List.map_cons, List.nodup_cons, mem_names_set]
      exact ⟨fun hc => hc.elim hm h.1, ih h.2⟩

theorem mem_set {name : String} {value : α} {pairs : List (String × α)} {e : String × α}
    (h : e ∈ set name value pairs) : e = (name, value) ∨ e ∈ pairs := by
  induction pairs with
  | nil => exact Or.inl (List.mem_singleton.mp h)
  | cons p pairs ih =>
    obtain ⟨n, v⟩ := p
    by_cases hn : n = name
    · subst hn
      rw [set, if_pos rfl] at h
      exact (List.mem_cons.mp h).imp_right (List.mem_cons_of_mem _)
    · rw [set, if_neg hn] at h
      rcases List.mem_cons.mp h with rfl | h
      · exact Or.inr List.mem_cons_self
      · exact (ih h).imp_right (List.mem_cons_of_mem _)

/-- Where names are different, each finds its value. -/
theorem get?_of_mem {name : String} {value : α} {pairs : List (String × α)}
    (hnodup : (pairs.map Prod.fst).Nodup) (h : (name, value) ∈ pairs) :
    get? name pairs = some value := by
  induction pairs with
  | nil => cases h
  | cons p pairs ih =>
    rw [List.map_cons, List.nodup_cons] at hnodup
    rcases List.mem_cons.mp h with rfl | h
    · exact if_pos rfl
    · rw [get?, if_neg, ih hnodup.2 h]
      rintro rfl
      exact hnodup.1 (List.mem_map.mpr ⟨_, h, rfl⟩)

theorem mem_of_get? {name : String} {value : α} {pairs : List (String × α)}
    (h : get? name pairs = some value) : (name, value) ∈ pairs := by
  induction pairs with
  | nil => cases h
  | cons p pairs ih =>
    rw [get?] at h
    split at h
    · next hn =>
      rw [← hn, ← Option.some.inj h]
      exact List.mem_cons_self
    · exact List.mem_cons_of_mem p (ih h)

/-- A name that occurs keeps its place. -/
theorem names_set_of_mem {name : String} {value : α} {pairs : List (String × α)}
    (h : name ∈ pairs.map Prod.fst) : (set name value pairs).map Prod.fst = pairs.map Prod.fst := by
  induction pairs with
  | nil => cases h
  | cons p pairs ih =>
    obtain ⟨n, v⟩ := p
    by_cases hn : n = name
    · rw [set, if_pos hn, List.map_cons, List.map_cons]
    · have hmem : name ∈ pairs.map Prod.fst := (List.mem_cons.mp h).resolve_left (Ne.symm hn)
      rw [set, if_neg hn, List.map_cons, List.map_cons, ih hmem]

/-- A new name is set at the end. -/
theorem set_of_not_mem {name : String} {value : α} :
    ∀ {pairs : List (String × α)}, name ∉ pairs.map Prod.fst →
      set name value pairs = pairs ++ [(name, value)]
  | [], _ => rfl
  | (n, v) :: pairs, h => by
    rw [List.map_cons, List.mem_cons, not_or] at h
    rw [set, if_neg (Ne.symm h.1), set_of_not_mem h.2, List.cons_append]

/-- Setting a name before or after every value is replaced. -/
theorem map_set {β : Type} (f : α → β) (name : String) (value : α) (pairs : List (String × α)) :
    (set name value pairs).map (fun p => (p.1, f p.2))
      = set name (f value) (pairs.map fun p => (p.1, f p.2)) := by
  induction pairs with
  | nil => rfl
  | cons p pairs ih =>
    obtain ⟨n, v⟩ := p
    by_cases hn : n = name
    · simp [set, hn]
    · simp [set, hn, ih]

end Pairs

/-- A map from names to values in order of insertion. -/
structure Table (α : Type) where
  /-- The names with their values. -/
  entries : List (String × α)
  /-- No name occurs twice. -/
  nodup : (entries.map Prod.fst).Nodup

namespace Table

/-- The table without entries. -/
def empty : Table α := ⟨[], List.nodup_nil⟩

instance : Inhabited (Table α) := ⟨empty⟩

instance [Repr α] : Repr (Table α) := ⟨fun t n => reprPrec t.entries n⟩

theorem ext_entries {s t : Table α} (h : s.entries = t.entries) : s = t := by
  cases s; cases t; simp_all

instance [DecidableEq α] : DecidableEq (Table α) := fun s t =>
  decidable_of_iff (s.entries = t.entries) ⟨ext_entries, fun h => h ▸ rfl⟩

/-- The names in order. -/
def names (t : Table α) : List String := t.entries.map Prod.fst

/-- The values in order of their names. -/
def values (t : Table α) : List α := t.entries.map Prod.snd

/-- The value of a name. -/
def get? (t : Table α) (name : String) : Option α := Pairs.get? name t.entries

/-- Does the name have a value? -/
def contains (t : Table α) (name : String) : Bool := (t.get? name).isSome

/-- Sets the value of a name. -/
def insert (t : Table α) (name : String) (value : α) : Table α :=
  ⟨Pairs.set name value t.entries, Pairs.nodup_set t.nodup⟩

/-- Sets the values of several names one after the other. -/
def insertAll (t : Table α) (pairs : List (String × α)) : Table α :=
  pairs.foldl (fun t p => t.insert p.1 p.2) t

/-- The table that results from setting the names one after the other. -/
def ofList (pairs : List (String × α)) : Table α := empty.insertAll pairs

theorem entries_insertAll {pairs : List (String × α)} :
    ∀ {t : Table α}, ((t.entries ++ pairs).map Prod.fst).Nodup →
      (t.insertAll pairs).entries = t.entries ++ pairs := by
  induction pairs with
  | nil =>
    intro t _
    rw [List.append_nil]
    rfl
  | cons p pairs ih =>
    intro t h
    have hnew : p.1 ∉ t.entries.map Prod.fst := by
      rw [List.map_append, List.nodup_append] at h
      exact fun hmem => h.2.2 p.1 hmem p.1 (List.mem_cons_self) rfl
    have hset : (t.insert p.1 p.2).entries = t.entries ++ [p] := Pairs.set_of_not_mem hnew
    have hrest := ih (t := t.insert p.1 p.2) (by rw [hset]; simpa using h)
    rw [hset, List.append_assoc] at hrest
    exact hrest

/-- Setting distinct names one after the other lists them in this order. -/
theorem ofList_entries (t : Table α) : ofList t.entries = t :=
  ext_entries ((entries_insertAll (t := empty) t.nodup).trans (List.nil_append _))

/-- The table with every value replaced, in the same order. -/
def mapValues {β : Type} (f : α → β) (t : Table α) : Table β where
  entries := t.entries.map fun p => (p.1, f p.2)
  nodup := by simpa [Function.comp_def] using t.nodup

@[simp] theorem values_mapValues {β : Type} (f : α → β) (t : Table α) :
    (t.mapValues f).values = t.values.map f := by
  simp [values, mapValues]

theorem mapValues_insert {β : Type} (f : α → β) (t : Table α) (name : String) (value : α) :
    (t.insert name value).mapValues f = (t.mapValues f).insert name (f value) :=
  ext_entries (Pairs.map_set f name value t.entries)

@[simp] theorem get?_insert (t : Table α) (name other : String) (value : α) :
    (t.insert name value).get? other = if name = other then some value else t.get? other :=
  Pairs.get?_set name other value t.entries

/-- After setting names one after the other, the last value of a name counts, and a name that was
not set has the value that it had. -/
theorem get?_insertAll_eq_some {pairs : List (String × α)} {name : String} {value : α} :
    ∀ {t : Table α}, (t.insertAll pairs).get? name = some value ↔
      (∃ before after, pairs = before ++ (name, value) :: after ∧ name ∉ after.map Prod.fst) ∨
        (name ∉ pairs.map Prod.fst ∧ t.get? name = some value) := by
  induction pairs with
  | nil => simp [insertAll]
  | cons p pairs ih =>
    intro t
    have hstep : t.insertAll (p :: pairs) = (t.insert p.1 p.2).insertAll pairs := rfl
    rw [hstep, ih, get?_insert]
    constructor
    · rintro (⟨before, after, rfl, hafter⟩ | ⟨hnot, hget⟩)
      · exact Or.inl ⟨p :: before, after, rfl, hafter⟩
      · split at hget
        · next heq =>
          -- the pair at hand is the last one of the name
          obtain rfl : p = (name, value) := Prod.ext heq (Option.some.inj hget)
          exact Or.inl ⟨[], pairs, rfl, hnot⟩
        · next hne => exact Or.inr ⟨by simp [hnot, Ne.symm hne], hget⟩
    · rintro (⟨before, after, heq, hafter⟩ | ⟨hnot, hget⟩)
      · cases before with
        | nil =>
          obtain ⟨rfl, rfl⟩ := List.cons.inj heq
          exact Or.inr ⟨hafter, if_pos rfl⟩
        | cons q before =>
          obtain ⟨rfl, rfl⟩ := List.cons.inj heq
          exact Or.inl ⟨before, after, rfl, hafter⟩
      · rw [List.map_cons, List.mem_cons, not_or] at hnot
        exact Or.inr ⟨hnot.2, by rw [if_neg (Ne.symm hnot.1), hget]⟩

theorem contains_iff {t : Table α} {name : String} : t.contains name = true ↔ name ∈ t.names := by
  constructor
  · intro h
    obtain ⟨value, hvalue⟩ := Option.isSome_iff_exists.mp h
    exact List.mem_map.mpr ⟨_, Pairs.mem_of_get? hvalue, rfl⟩
  · intro h
    obtain ⟨e, he, rfl⟩ := List.mem_map.mp h
    exact Option.isSome_iff_exists.mpr ⟨e.2, Pairs.get?_of_mem t.nodup he⟩

/-- What stands behind the entries of a table hides none of them. -/
theorem get?_of_isPrefix {s t : Table α} (h : s.entries <+: t.entries) {name : String} {value : α}
    (hget : s.get? name = some value) : t.get? name = some value :=
  Pairs.get?_of_mem t.nodup (h.subset (Pairs.mem_of_get? hget))

/-- Only what is set is in the table. -/
theorem mem_entries_insertAll {pairs : List (String × α)} {e : String × α} :
    ∀ {t : Table α}, e ∈ (t.insertAll pairs).entries → e ∈ t.entries ∨ e ∈ pairs := by
  induction pairs with
  | nil => exact fun h => Or.inl h
  | cons p pairs ih =>
    intro t h
    rcases ih (t := t.insert p.1 p.2) h with h | h
    · rcases Pairs.mem_set h with rfl | h
      · exact Or.inr List.mem_cons_self
      · exact Or.inl h
    · exact Or.inr (List.mem_cons_of_mem p h)

theorem mem_names_insertAll {pairs : List (String × α)} {n : String} :
    ∀ {t : Table α}, n ∈ (t.insertAll pairs).names ↔ n ∈ t.names ∨ n ∈ pairs.map Prod.fst := by
  induction pairs with
  | nil => simp [insertAll]
  | cons p pairs ih =>
    intro t
    have hstep : t.insertAll (p :: pairs) = (t.insert p.1 p.2).insertAll pairs := rfl
    have hset : n ∈ (t.insert p.1 p.2).names ↔ n = p.1 ∨ n ∈ t.names := Pairs.mem_names_set
    rw [hstep, ih, hset, List.map_cons, List.mem_cons, or_comm (a := n = p.1), or_assoc]

/-- A table has the names of its pairs. -/
theorem mem_names_ofList {pairs : List (String × α)} {n : String} :
    n ∈ (ofList pairs).names ↔ n ∈ pairs.map Prod.fst := by
  rw [ofList, mem_names_insertAll]
  exact or_iff_right List.not_mem_nil

/-- Adding pairs to a table is making it of all pairs. -/
theorem insertAll_ofList (first second : List (String × α)) :
    (ofList first).insertAll second = ofList (first ++ second) :=
  List.foldl_append.symm

theorem mem_of_mem_entries_ofList {pairs : List (String × α)} {e : String × α}
    (h : e ∈ (ofList pairs).entries) : e ∈ pairs := by
  rcases mem_entries_insertAll h with h | h
  · cases h
  · exact h

/-- The first name of a kind is the first that was set. -/
theorem find?_names_insertAll (p : String → Bool) {pairs : List (String × α)} :
    ∀ {t : Table α},
      (t.insertAll pairs).names.find? p = (t.names ++ pairs.map Prod.fst).find? p := by
  induction pairs with
  | nil => simp [insertAll]
  | cons e pairs ih =>
    intro t
    have hstep : t.insertAll (e :: pairs) = (t.insert e.1 e.2).insertAll pairs := rfl
    rw [hstep, ih]
    by_cases hmem : e.1 ∈ t.names
    · have hset : (t.insert e.1 e.2).names = t.names := Pairs.names_set_of_mem hmem
      rw [hset, List.find?_append, List.find?_append]
      cases hfind : t.names.find? p with
      | some n => rfl
      | none =>
        have he : ¬p e.1 = true := List.find?_eq_none.mp hfind e.1 hmem
        rw [List.map_cons, List.find?_cons_of_neg he]
    · have hset : (t.insert e.1 e.2).names = t.names ++ [e.1] := by
        show (Pairs.set e.1 e.2 t.entries).map Prod.fst = _
        rw [Pairs.set_of_not_mem hmem, List.map_append]
        rfl
      rw [hset, List.append_assoc]
      rfl

/-- Where values are listed under their own names, the first of a kind is that of the first name. -/
theorem find?_values {p : String → Bool} {nameOf : α → String} {t : Table α} {name : String}
    {value : α} (hnames : ∀ e ∈ t.entries, nameOf e.2 = e.1) (hname : t.names.find? p = some name)
    (hvalue : t.get? name = some value) : t.values.find? (fun x => p (nameOf x)) = some value := by
  rw [names, List.find?_map] at hname
  obtain ⟨e, he, rfl⟩ := Option.map_eq_some_iff.mp hname
  have hsame : t.entries.find? (fun e => p (nameOf e.2)) = some e := by
    rw [← he, ← List.head?_filter, ← List.head?_filter,
      List.filter_congr fun e he => congrArg p (hnames e he)]
    rfl
  have hget : t.get? e.1 = some e.2 := Pairs.get?_of_mem t.nodup (List.mem_of_find?_eq_some he)
  rw [values, List.find?_map]
  show (t.entries.find? fun e => p (nameOf e.2)).map Prod.snd = _
  rw [hsame, Option.map_some, ← hget, hvalue]

/-- The last value of a name counts. -/
theorem get?_ofList_eq_some {pairs : List (String × α)} {name : String} {value : α} :
    (ofList pairs).get? name = some value ↔
      ∃ before after, pairs = before ++ (name, value) :: after ∧ name ∉ after.map Prod.fst := by
  rw [ofList, get?_insertAll_eq_some, or_iff_left]
  rintro ⟨-, hget⟩
  cases hget

end Table

end TypeFacts
