/-!
# Memos

A memo keeps what was computed for a key. Every stored value has a serial number of its own, which
is never used again even when the memo is emptied, so two answers come from one store exactly when
their numbers agree.
-/

namespace TypeFacts

/-- A value with the serial number it was stored under. -/
structure Stored (α : Type) where
  serial : Nat
  value : α
  deriving DecidableEq, Repr

/-- What was computed so far, by key. -/
structure Memo (κ α : Type) where
  /-- The stored values, the latest first. -/
  entries : List (κ × Stored α)
  /-- The serial number of the next value. -/
  next : Nat
  deriving Repr

namespace Memo

variable {κ α : Type}

/-- The memo without values. -/
def empty : Memo κ α := ⟨[], 0⟩

instance : Inhabited (Memo κ α) := ⟨empty⟩

/-- The value stored for a key. -/
def find? [DecidableEq κ] (m : Memo κ α) (key : κ) : Option (Stored α) :=
  (m.entries.find? fun e => e.1 = key).map (·.2)

/-- Stores a value under the next serial number, in place of one that the key had before. -/
def store [DecidableEq κ] (m : Memo κ α) (key : κ) (value : α) : Stored α × Memo κ α :=
  (⟨m.next, value⟩,
    ⟨(key, ⟨m.next, value⟩) :: m.entries.filter (fun e => e.1 ≠ key), m.next + 1⟩)

/-- The value stored for a key, or else the one made for it, which is stored when the
making succeeds. -/
def findOrMake {ε : Type} [DecidableEq κ] (m : Memo κ α) (key : κ) (make : Unit → Except ε α) :
    Except ε (Stored α) × Memo κ α :=
  match m.find? key with
  | some stored => (.ok stored, m)
  | none =>
    match make () with
    | .error e => (.error e, m)
    | .ok value =>
      let (stored, m) := m.store key value
      (.ok stored, m)

/-- Forgets all values; the serial numbers go on. -/
def clear (m : Memo κ α) : Memo κ α := ⟨[], m.next⟩

/-- The number of stored values. -/
def size (m : Memo κ α) : Nat := m.entries.length

end Memo

end TypeFacts
