import TypeFacts.Text.Case

/-!
# Type descriptors

A descriptor is a scalar kind, a name, an array with or without a key type, or a union, and each
carries a flag that says whether `null` is allowed besides. The alternatives of a union form a set:
`Ty.code` writes a descriptor as a row of numbers, no two descriptors share one
(`Ty.code_injective`), and the members of a union stand in increasing order of their codes, so that
equality of descriptors is equality of sets of alternatives.

* `Ty.withNullable` sets the flag, `Ty.null` and `Ty.mixed` are the two distinguished names.
* `Ty.members` gives the alternatives of a union and the descriptor itself otherwise.
* `Ty.WellFormed` says what every descriptor that is read, merged or inferred satisfies: names are
  not empty, and each union has at least two members in strictly increasing order, none of them a
  union, nullable or the null type.
-/

namespace TypeFacts

/-- The four scalar kinds. -/
inductive ScalarKind where
  | int
  | float
  | string
  | bool
  deriving DecidableEq, Repr

namespace ScalarKind

/-- The word for a scalar kind. -/
def word : ScalarKind → String
  | int => "int"
  | float => "float"
  | string => "string"
  | bool => "bool"

/-- The scalar kind that a word names. -/
def ofWord? : String → Option ScalarKind
  | "int" => some int
  | "float" => some float
  | "string" => some string
  | "bool" => some bool
  | _ => none

/-- The place of a scalar kind among the four. -/
def index : ScalarKind → Nat
  | int => 0
  | float => 1
  | string => 2
  | bool => 3

theorem index_injective {a b : ScalarKind} (h : a.index = b.index) : a = b := by
  cases a <;> cases b <;> simp_all [index]

@[simp] theorem ofWord?_word (k : ScalarKind) : ofWord? k.word = some k := by
  cases k <;> rfl

end ScalarKind

/-- A type descriptor. The flag of each form says whether `null` is allowed besides. -/
inductive Ty where
  /-- A scalar kind. -/
  | scalar (kind : ScalarKind) (nullable : Bool)
  /-- A class, or one of the keyword types such as `mixed` and `void`. -/
  | named (name : String) (nullable : Bool)
  /-- An array of values, whose keys are not described. -/
  | array (value : Ty) (nullable : Bool)
  /-- An array with keys and values. -/
  | keyed (key value : Ty) (nullable : Bool)
  /-- One of several alternatives. -/
  | union (members : List Ty) (nullable : Bool)
  deriving Repr, Inhabited

namespace Ty

/-! ### Codes, equality and order -/

mutual

/-- A row of numbers that determines the descriptor and where its code ends. -/
def code : Ty → List Nat
  | scalar k n => [0, k.index, n.toNat]
  | named s n => 1 :: n.toNat :: s.toList.length :: s.toList.map Char.toNat
  | array v n => 2 :: n.toNat :: v.code
  | keyed k v n => 3 :: n.toNat :: (k.code ++ v.code)
  | union ms n => 4 :: n.toNat :: ms.length :: codes ms

/-- The codes of several descriptors, one after the other. -/
def codes : List Ty → List Nat
  | [] => []
  | t :: ts => t.code ++ codes ts

end

private theorem toNat_bool_injective {a b : Bool} (h : a.toNat = b.toNat) : a = b := by
  cases a <;> cases b <;> simp_all

private theorem map_toNat_injective :
    ∀ {cs ds : List Char}, cs.map Char.toNat = ds.map Char.toNat → cs = ds
  | [], [], _ => rfl
  | [], _ :: _, h => by simp at h
  | _ :: _, [], h => by simp at h
  | c :: cs, d :: ds, h => by
    simp only [List.map_cons, List.cons.injEq] at h
    rw [Char.toNat_inj.1 h.1, map_toNat_injective h.2]

mutual

private theorem code_append_injective :
    ∀ (s t : Ty) (r q : List Nat), s.code ++ r = t.code ++ q → s = t ∧ r = q
  | scalar k n, t, r, q, h => by
    cases t with
    | scalar k' n' =>
      simp only [code, List.cons_append, List.nil_append, List.cons.injEq, true_and] at h
      obtain ⟨hk, hn, hr⟩ := h
      rw [ScalarKind.index_injective hk, toNat_bool_injective hn]
      exact ⟨rfl, hr⟩
    | _ => simp [code] at h
  | named s n, t, r, q, h => by
    cases t with
    | named s' n' =>
      simp only [code, List.cons_append, List.cons.injEq, true_and] at h
      obtain ⟨hn, hl, hc⟩ := h
      obtain ⟨hs, hr⟩ := List.append_inj hc (by simpa using hl)
      rw [toNat_bool_injective hn, String.toList_inj.1 (map_toNat_injective hs)]
      exact ⟨rfl, hr⟩
    | _ => simp [code] at h
  | array v n, t, r, q, h => by
    cases t with
    | array v' n' =>
      simp only [code, List.cons_append, List.cons.injEq, true_and] at h
      obtain ⟨hv, hr⟩ := code_append_injective v v' r q h.2
      rw [toNat_bool_injective h.1, hv]
      exact ⟨rfl, hr⟩
    | _ => simp [code] at h
  | keyed k v n, t, r, q, h => by
    cases t with
    | keyed k' v' n' =>
      simp only [code, List.cons_append, List.append_assoc, List.cons.injEq, true_and] at h
      obtain ⟨hk, hrest⟩ := code_append_injective k k' _ _ h.2
      obtain ⟨hv, hr⟩ := code_append_injective v v' r q hrest
      rw [toNat_bool_injective h.1, hk, hv]
      exact ⟨rfl, hr⟩
    | _ => simp [code] at h
  | union ms n, t, r, q, h => by
    cases t with
    | union ms' n' =>
      simp only [code, List.cons_append, List.cons.injEq, true_and] at h
      obtain ⟨hn, hl, hc⟩ := h
      obtain ⟨hm, hr⟩ := codes_append_injective ms ms' r q hl hc
      rw [toNat_bool_injective hn, hm]
      exact ⟨rfl, hr⟩
    | _ => simp [code] at h

private theorem codes_append_injective :
    ∀ (ss ts : List Ty) (r q : List Nat), ss.length = ts.length →
      codes ss ++ r = codes ts ++ q → ss = ts ∧ r = q
  | [], [], r, q, _, h => ⟨rfl, by simpa [codes] using h⟩
  | [], _ :: _, _, _, hl, _ => by simp at hl
  | _ :: _, [], _, _, hl, _ => by simp at hl
  | s :: ss, t :: ts, r, q, hl, h => by
    simp only [codes, List.append_assoc] at h
    obtain ⟨hs, hrest⟩ := code_append_injective s t _ _ h
    obtain ⟨hss, hr⟩ := codes_append_injective ss ts r q (by simpa using hl) hrest
    exact ⟨by rw [hs, hss], hr⟩

end

/-- No two descriptors share a code. -/
theorem code_injective {s t : Ty} (h : s.code = t.code) : s = t :=
  (code_append_injective s t [] [] (by simpa using h)).1

instance : DecidableEq Ty := fun s t =>
  decidable_of_iff (s.code = t.code) ⟨code_injective, fun h => h ▸ rfl⟩

/-! ### Flags and names -/

/-- Is `null` allowed besides? -/
def nullable : Ty → Bool
  | scalar _ n | named _ n | array _ n | keyed _ _ n | union _ n => n

/-- The descriptor with its flag set to `n`. -/
def withNullable (t : Ty) (n : Bool) : Ty :=
  match t with
  | scalar k _ => scalar k n
  | named s _ => named s n
  | array v _ => array v n
  | keyed k v _ => keyed k v n
  | union ms _ => union ms n

@[simp] theorem nullable_withNullable (t : Ty) (n : Bool) : (t.withNullable n).nullable = n := by
  cases t <;> rfl

@[simp] theorem withNullable_nullable (t : Ty) : t.withNullable t.nullable = t := by
  cases t <;> rfl

@[simp] theorem withNullable_withNullable (t : Ty) (m n : Bool) :
    (t.withNullable m).withNullable n = t.withNullable n := by
  cases t <;> rfl

/-- The type of anything. -/
def mixed : Ty := named "mixed" false

/-- The type of `null` alone. -/
def null : Ty := named "null" true

/-- Is the descriptor the name `null`, whatever its flag? -/
def isNull : Ty → Bool
  | named s _ => s == "null"
  | _ => false

/-- Is the descriptor the name `mixed`, whatever its flag? -/
def isMixed : Ty → Bool
  | named s _ => s == "mixed"
  | _ => false

/-- Is the descriptor a scalar kind? -/
def isScalar : Ty → Bool
  | scalar _ _ => true
  | _ => false

/-- Names that stand for no class. -/
def nonClassNames : List String :=
  ["array", "object", "callable", "iterable", "resource", "null", "void", "never", "mixed"]

/-- Is the descriptor a name that stands for a class? -/
def isClass : Ty → Bool
  | named s _ => !nonClassNames.contains (Text.asciiLower s)
  | _ => false

/-- Is the descriptor a union? -/
def isUnion : Ty → Bool
  | union _ _ => true
  | _ => false

/-- Is the descriptor an array, with or without a key type? -/
def isArray : Ty → Bool
  | array _ _ | keyed _ _ _ => true
  | _ => false

/-- Is the descriptor an array whose keys are strings? -/
def isAssociative : Ty → Bool
  | keyed (scalar .string _) _ _ => true
  | _ => false

/-- Is the descriptor an array whose keys are integers? -/
def isIndexed : Ty → Bool
  | keyed (scalar .int _) _ _ => true
  | _ => false

/-- An array with a key type where one is known. -/
def arrayOf (key : Option Ty) (value : Ty) (nullable : Bool) : Ty :=
  match key with
  | some k => keyed k value nullable
  | none => array value nullable

/-- An array of anything. -/
def anyArray : Ty := array mixed false

/-- The alternatives of a union; any other descriptor is its only alternative. -/
def members : Ty → List Ty
  | union ms _ => ms
  | t => [t]

/-! ### Building descriptors -/

/-- Why a descriptor cannot be built. -/
inductive Fault where
  /-- A name without characters. -/
  | emptyName
  deriving DecidableEq, Repr

/-- The wording of a fault. -/
def Fault.message : Fault → String
  | emptyName => "String should have at least 1 character"

/-- A named descriptor; the name must have a character. -/
def ofName (name : String) (nullable : Bool) : Except Fault Ty :=
  if name.isEmpty then .error .emptyName else .ok (named name nullable)

/-- Puts a descriptor into a list in increasing order of codes, unless it is there already. -/
def insertMember (t : Ty) : List Ty → List Ty
  | [] => [t]
  | m :: ms =>
    if t = m then m :: ms
    else if t.code < m.code then t :: m :: ms
    else m :: insertMember t ms

/-- The distinct descriptors of a list in increasing order of codes. -/
def memberSet (ts : List Ty) : List Ty :=
  ts.foldr insertMember []

theorem mem_insertMember {t u : Ty} {ms : List Ty} :
    u ∈ insertMember t ms ↔ u = t ∨ u ∈ ms := by
  induction ms with
  | nil => simp [insertMember]
  | cons m ms ih =>
    simp only [insertMember]
    split
    · next h => subst h; simp
    · split
      · simp
      · simp only [List.mem_cons, ih]
        constructor
        · rintro (h | h | h) <;> simp [h]
        · rintro (h | h | h) <;> simp [h]

/-- Collecting a list as a set keeps exactly its members. -/
@[simp] theorem mem_memberSet {t : Ty} {ts : List Ty} : t ∈ memberSet ts ↔ t ∈ ts := by
  induction ts with
  | nil => simp [memberSet]
  | cons u us ih =>
    have h : memberSet (u :: us) = insertMember u (memberSet us) := rfl
    rw [h, mem_insertMember, ih, List.mem_cons]

/-! ### Well-formed descriptors -/

mutual

/-- Names are not empty, and each union has at least two members in strictly increasing order, none
of them a union, nullable or the null type. -/
def WellFormed : Ty → Prop
  | scalar _ _ => True
  | named s _ => s ≠ ""
  | array v _ => v.WellFormed
  | keyed k v _ => k.WellFormed ∧ v.WellFormed
  | union ms _ =>
    2 ≤ ms.length ∧ ms.Pairwise (fun a b => a.code < b.code) ∧
      (∀ m ∈ ms, m.isUnion = false ∧ m.nullable = false ∧ m.isNull = false) ∧ AllWellFormed ms

/-- Every descriptor of a list is well formed. -/
def AllWellFormed : List Ty → Prop
  | [] => True
  | t :: ts => t.WellFormed ∧ AllWellFormed ts

end

theorem allWellFormed_iff {ts : List Ty} : AllWellFormed ts ↔ ∀ t ∈ ts, t.WellFormed := by
  induction ts with
  | nil => simp [AllWellFormed]
  | cons t ts ih => simp [AllWellFormed, ih]

end Ty

end TypeFacts
