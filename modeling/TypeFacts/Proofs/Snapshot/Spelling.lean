import TypeFacts.Proofs.TypeText.Grammar
import TypeFacts.Snapshot.Convert

/-!
# Reflected types and their texts

Reflection describes a type by a descriptor, and source code by a text. `ReflectedTy.text` writes a
descriptor as source code would: names as they are, unions with bars, intersections in parentheses,
and a question mark where null is allowed besides. Converting the descriptor and reading its text
give the same type (`ReflectedTy.parse_text`).

The two go different ways. The conversion recurses over the descriptor and leaves `mixed` without a
flag; the reader scans the text again for every alternative, and takes a question mark in front for
one of the whole expression. The text of a descriptor is therefore followed through the grammar:
inside a union it is one alternative, and by itself an expression, and in both places it describes
the type that the conversion gives (`ReflectedTy.Spelled.denotes`).
-/

namespace TypeFacts

open TypeText (Denotes IsClassName isReserved)

/-! ### Names -/

/-- A word of the grammar in any letter case, or the name of a class. -/
def IsTypeName (s : String) : Prop :=
  isReserved s = true ∨ IsClassName s.toList

instance (s : String) : Decidable (IsTypeName s) :=
  inferInstanceAs (Decidable (_ ∨ _))

/-- The name of a type is a phrase of the grammar. -/
theorem IsTypeName.denotes {s : String} (h : IsTypeName s) : ∃ t, Denotes .primary s.toList t := by
  rcases h with h | h
  · rw [← String.ofList_toList (s := s), TypeText.isReserved_ofList] at h
    simp only [Bool.or_eq_true, Option.isSome_iff_exists, beq_iff_eq] at h
    rcases h with ((⟨k, hk⟩ | harray) | hkey) | hnull
    · exact ⟨_, .scalar hk⟩
    · exact ⟨_, .anyArray harray⟩
    · exact ⟨_, .keyword hkey⟩
    · exact ⟨_, .null hnull⟩
  · exact ⟨_, .className h⟩

namespace ReflectedTy

/-! ### Texts -/

/-- Is the descriptor converted to `mixed`, whatever its flag? -/
def isMixed (d : ReflectedTy) : Bool :=
  match d.toTy with
  | .ok t => t.isMixed
  | .error _ => false

/-- The mark of a descriptor that allows null besides; `mixed` needs none. -/
def mark (allowsNull : Bool) (d : ReflectedTy) : List Char :=
  if allowsNull && !d.isMixed then ['?'] else []

mutual

/-- The characters of a descriptor; inside another one, a union stands in parentheses. -/
def spelling (inside : Bool) : ReflectedTy → List Char
  | named name n => mark n (named name n) ++ (name.getD "").toList
  | union ms n =>
    let alternatives := ['|'].intercalate (spellings ms)
    mark n (union ms n) ++ if inside then '(' :: (alternatives ++ [')']) else alternatives
  | intersection ms => '(' :: (['&'].intercalate (spellings ms) ++ [')'])

/-- The characters of several descriptors inside another one. -/
def spellings : List ReflectedTy → List (List Char)
  | [] => []
  | d :: ds => spelling true d :: spellings ds

end

/-- The text of a descriptor. -/
def text (d : ReflectedTy) : String :=
  String.ofList (d.spelling false)

/-- The descriptors that source code can write: names of types, unions of at least one member, and
intersections of at least two names. -/
inductive Spelled : ReflectedTy → Prop
  | named {s : String} (n : Bool) : IsTypeName s → Spelled (.named (some s) n)
  | union {ms : List ReflectedTy} (n : Bool) : ms ≠ [] → (∀ m ∈ ms, Spelled m) →
      Spelled (.union ms n)
  | intersection {names : List String} : 2 ≤ names.length → (∀ s ∈ names, IsTypeName s) →
      Spelled (.intersection (names.map fun s => .named (some s) false))

/-! ### Marks and flags -/

theorem isMixed_allowing (n : Bool) (t : Ty) : (allowing n t).isMixed = t.isMixed := by
  unfold allowing
  split_ifs with h
  · cases t <;> rfl
  · rfl

/-- The mark in front of a text stands for the flag that the conversion sets. -/
theorem mark_cases {d : ReflectedTy} {n : Bool} {t : Ty} (h : d.toTy = .ok (allowing n t)) :
    (mark n d = [] ∧ allowing n t = t) ∨
    (mark n d = ['?'] ∧ allowing n t = t.withNullable true) := by
  have hmixed : d.isMixed = t.isMixed := by rw [isMixed, h, ← isMixed_allowing n t]
  rw [mark, hmixed, allowing]
  split_ifs
  · exact .inr ⟨rfl, rfl⟩
  · exact .inl ⟨rfl, rfl⟩

/-- With its mark, a phrase without one is an alternative. -/
theorem denotes_mark {d : ReflectedTy} {n : Bool} {cs : List Char} {t : Ty}
    (hd : d.toTy = .ok (allowing n t)) (h : Denotes .primary cs t) :
    Denotes .alternative (mark n d ++ cs) (allowing n t) := by
  rcases mark_cases hd with ⟨hmark, hflag⟩ | ⟨hmark, hflag⟩
  · rw [hmark, hflag]
    exact .plain (.bare h)
  · rw [hmark, hflag]
    exact .optional (.bare h)

/-! ### Agreement -/

/-- The members of a union, converted and written. -/
theorem exists_phrases {ms : List ReflectedTy}
    (h : ∀ m ∈ ms, ∃ t, m.toTy = .ok t ∧ Denotes .alternative (m.spelling true) t) :
    ∃ ps : List (List Char × Ty), toTys ms = .ok (ps.map Prod.snd) ∧
      spellings ms = ps.map Prod.fst ∧ ∀ p ∈ ps, Denotes .alternative p.1 p.2 := by
  induction ms with
  | nil =>
    refine ⟨[], ?_, ?_, ?_⟩
    · rw [toTys, List.map_nil]
    · rw [spellings, List.map_nil]
    · exact fun p hp => by cases hp
  | cons m ms ih =>
    obtain ⟨⟨t, ht, hm⟩, hms⟩ := List.forall_mem_cons.mp h
    obtain ⟨ps, htypes, htexts, hps⟩ := ih hms
    refine ⟨(m.spelling true, t) :: ps, ?_, ?_, List.forall_mem_cons.mpr ⟨hm, hps⟩⟩
    · rw [toTys, ht, htypes]
      rfl
    · rw [spellings, htexts, List.map_cons]

/-- The names of an intersection, written one by one. -/
theorem spellings_names (names : List String) :
    spellings (names.map fun s => .named (some s) false) = names.map String.toList := by
  induction names with
  | nil => rw [List.map_nil, spellings, List.map_nil]
  | cons s names ih =>
    rw [List.map_cons, spellings, ih, spelling, List.map_cons]
    rfl

theorem denotes_intersection {names : List String} (hlen : 2 ≤ names.length)
    (h : ∀ s ∈ names, IsTypeName s) :
    Denotes .alternative (['&'].intercalate (names.map String.toList)) .mixed := by
  choose! f hf using fun s hs => (h s hs).denotes
  have hps : ∀ p ∈ names.map fun s => (s.toList, f s), Denotes .suffixed p.1 p.2 := by
    intro p hp
    obtain ⟨s, hs, rfl⟩ := List.mem_map.mp hp
    exact .bare (hf s hs)
  simpa [Function.comp_def] using Denotes.intersection (by simpa using hlen) hps

/-- The text of a descriptor describes the type that it is converted to, as one alternative of a
union and by itself. -/
theorem Spelled.denotes {d : ReflectedTy} (h : Spelled d) : ∃ t, d.toTy = .ok t ∧
    Denotes .alternative (d.spelling true) t ∧ Denotes .expression (d.spelling false) t := by
  induction h with
  | @named s n hs =>
    obtain ⟨t, ht⟩ := hs.denotes
    have hconvert : (ReflectedTy.named (some s) n).toTy = .ok (allowing n t) := by
      rw [toTy, TypeText.parse, (Denotes.single (.plain (.bare ht))).expression_eq]
      rfl
    have hdenotes := denotes_mark hconvert ht
    refine ⟨allowing n t, hconvert, ?_, .single ?_⟩
    · rwa [spelling]
    · rwa [spelling]
  | @union ms n hne _ ih =>
    obtain ⟨ps, htypes, htexts, hps⟩ := exists_phrases fun m hm => by
      obtain ⟨t, ht, hm, -⟩ := ih m hm
      exact ⟨t, ht, hm⟩
    have hps' : ps ≠ [] := by
      rintro rfl
      cases ms with
      | nil => exact hne rfl
      | cons m ms => simp [spellings] at htexts
    have hconvert :
        (ReflectedTy.union ms n).toTy = .ok (allowing n (.merge (ps.map Prod.snd))) := by
      rw [toTy, htypes]
      rfl
    refine ⟨_, hconvert, ?_, ?_⟩
    · rw [spelling, htexts]
      exact denotes_mark hconvert (.group (.alternatives hps' hps))
    · -- by itself, a union has its mark in front of the first alternative
      rw [spelling, htexts]
      rcases mark_cases hconvert with ⟨hmark, hflag⟩ | ⟨hmark, hflag⟩
      · rw [hmark, hflag]
        exact .alternatives hps' hps
      · rw [hmark, hflag]
        exact .nullable hps' hps
  | intersection hlen hs =>
    have hdenotes := Denotes.plain (.bare (.group (.single (denotes_intersection hlen hs))))
    rw [← spellings_names] at hdenotes
    refine ⟨.mixed, by rw [toTy], ?_, .single ?_⟩
    · rwa [spelling]
    · rwa [spelling]

/-- Converting a descriptor and reading its text give the same type. -/
theorem parse_text {d : ReflectedTy} (h : Spelled d) :
    ∃ t, d.toTy = .ok t ∧ TypeText.parse d.text = .ok (some t) := by
  obtain ⟨t, ht, -, hexpression⟩ := h.denotes
  refine ⟨t, ht, ?_⟩
  rw [TypeText.parse, text, String.toList_ofList]
  exact hexpression.expression_eq

/-- A union with marks at three depths, a member that is `mixed` anyway, and an intersection. -/
def nestedUnion : ReflectedTy :=
  .union [.union [.named (some "int") true, .named (some "\\App\\User") false] true,
    .named (some "Mixed") true,
    .intersection (["A", "B"].map fun s => .named (some s) false)] true

theorem parse_text_nestedUnion : Spelled nestedUnion ∧
    nestedUnion.text = "??(?int|\\App\\User)|Mixed|(A&B)" ∧
    ∃ t, nestedUnion.toTy = .ok t ∧
      TypeText.parse "??(?int|\\App\\User)|Mixed|(A&B)" = .ok (some t) := by
  have htext : nestedUnion.text = "??(?int|\\App\\User)|Mixed|(A&B)" := by decide +kernel
  have hspelled : Spelled nestedUnion := by
    refine .union true (by simp) (List.forall_mem_cons.mpr ⟨.union true (by simp) ?_, ?_⟩)
    · simp only [List.forall_mem_cons]
      exact ⟨.named _ (by decide), .named _ (by decide), by simp⟩
    · simp only [List.forall_mem_cons]
      exact ⟨.named _ (by decide), .intersection (by decide) (by decide), by simp⟩
  exact ⟨hspelled, htext, htext ▸ parse_text hspelled⟩

end ReflectedTy

end TypeFacts
