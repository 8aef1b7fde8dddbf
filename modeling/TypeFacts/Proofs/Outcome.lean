import Mathlib.Data.List.Forall2

/-!
# Outcomes of computations that may fail

What a computation that succeeded says of its parts: a sequence succeeds step by step
(`bind_eq_ok`), and a row of computations one by one, in order (`forall₂_of_mapM`,
`exists_mapM_iff`). A condition on
what a computation gives, where it gives something (`Yields`), follows from conditions on its parts.
-/

namespace TypeFacts

variable {α β ε : Type}

/-- Two halves succeed exactly if the first one does and the second one does with its result. -/
theorem bind_eq_ok {x : Except ε α} {f : α → Except ε β} {b : β} :
    (x >>= f) = .ok b ↔ ∃ a, x = .ok a ∧ f a = .ok b := by
  cases x with
  | error e =>
    constructor
    · intro h
      cases h
    · rintro ⟨a, ha, -⟩
      cases ha
  | ok a =>
    constructor
    · exact fun h => ⟨a, rfl, h⟩
    · rintro ⟨a', ha, h⟩
      rwa [Except.ok.inj ha]

theorem exists_of_map_eq_ok {x : Except ε α} {f : α → β} {b : β} (h : x.map f = .ok b) :
    ∃ a, x = .ok a ∧ f a = b := by
  cases x with
  | error e => cases h
  | ok a => exact ⟨a, rfl, Except.ok.inj h⟩

theorem mapError_eq_ok {ε' : Type} {f : ε → ε'} {x : Except ε α} {a : α} :
    x.mapError f = .ok a ↔ x = .ok a := by
  cases x <;> simp [Except.mapError]

/-- What is made of a list is made of its members one by one. -/
theorem forall₂_of_mapM {f : α → Except ε β} {xs : List α} {ys : List β} (h : xs.mapM f = .ok ys) :
    List.Forall₂ (fun x y => f x = .ok y) xs ys := by
  induction xs generalizing ys with
  | nil =>
    rw [List.mapM_nil] at h
    obtain rfl := Except.ok.inj h
    exact .nil
  | cons x xs ih =>
    rw [List.mapM_cons] at h
    obtain ⟨y, hy, h⟩ := bind_eq_ok.mp h
    obtain ⟨zs, hzs, h⟩ := bind_eq_ok.mp h
    obtain rfl := Except.ok.inj h
    exact .cons hy (ih hzs)

theorem exists_of_mem_forall₂ {R : α → β → Prop} {xs : List α} {ys : List β}
    (h : List.Forall₂ R xs ys) {y : β} (hy : y ∈ ys) : ∃ x ∈ xs, R x y := by
  induction h with
  | nil => cases hy
  | cons hx _ ih =>
    rcases List.mem_cons.mp hy with rfl | hy
    · exact ⟨_, List.mem_cons_self, hx⟩
    · obtain ⟨x, hmem, hx⟩ := ih hy
      exact ⟨x, List.mem_cons_of_mem _ hmem, hx⟩

theorem exists_of_mem_mapM {f : α → Except ε β} {xs : List α} {ys : List β} (h : xs.mapM f = .ok ys)
    {y : β} (hy : y ∈ ys) : ∃ x ∈ xs, f x = .ok y :=
  exists_of_mem_forall₂ (forall₂_of_mapM h) hy

/-- A row of computations gives a row that meets a condition exactly if each of them gives something
that does. -/
theorem exists_mapM_iff {f : α → Except ε β} {P : β → Prop} {xs : List α} :
    (∃ ys, xs.mapM f = .ok ys ∧ ∀ y ∈ ys, P y) ↔ ∀ x ∈ xs, ∃ y, f x = .ok y ∧ P y := by
  induction xs with
  | nil => simp [pure, Except.pure]
  | cons x xs ih =>
    rw [List.forall_mem_cons, ← ih]
    constructor
    · rintro ⟨ys, hys, hall⟩
      rw [List.mapM_cons] at hys
      obtain ⟨y, hy, hys⟩ := bind_eq_ok.mp hys
      obtain ⟨zs, hzs, hys⟩ := bind_eq_ok.mp hys
      obtain rfl := Except.ok.inj hys
      obtain ⟨hx, hxs⟩ := List.forall_mem_cons.mp hall
      exact ⟨⟨y, hy, hx⟩, zs, hzs, hxs⟩
    · rintro ⟨⟨y, hy, hx⟩, ys, hys, hxs⟩
      refine ⟨y :: ys, ?_, List.forall_mem_cons.mpr ⟨hx, hxs⟩⟩
      rw [List.mapM_cons, hy, hys]
      rfl

/-! ### Conditions on what is given -/

/-- What the computation gives, where it succeeds, meets the condition. -/
def Yields (x : Except ε α) (P : α → Prop) : Prop :=
  ∀ a, x = .ok a → P a

variable {P : α → Prop} {Q : β → Prop}

theorem yields_ok {a : α} (h : P a) : Yields (.ok a : Except ε α) P := by
  intro b hb
  rwa [← Except.ok.inj hb]

theorem yields_error (e : ε) : Yields (.error e) P := by
  intro a ha
  cases ha

/-- What the first half yields may be used by the second one. -/
theorem Yields.bind {x : Except ε α} {f : α → Except ε β} (hx : Yields x P)
    (hf : ∀ a, P a → Yields (f a) Q) : Yields (x >>= f) Q := by
  intro b hb
  obtain ⟨a, ha, hb⟩ := bind_eq_ok.mp hb
  exact hf a (hx a ha) b hb

theorem Yields.map {x : Except ε α} {f : α → β} (hx : Yields x P) (hf : ∀ a, P a → Q (f a)) :
    Yields (x.map f) Q := by
  intro b hb
  obtain ⟨a, ha, rfl⟩ := exists_of_map_eq_ok hb
  exact hf a (hx a ha)

/-- Over a list every result satisfies the condition. -/
theorem Yields.mapM {f : α → Except ε β} {xs : List α} (h : ∀ x ∈ xs, Yields (f x) Q) :
    Yields (xs.mapM f) fun ys => ∀ y ∈ ys, Q y := by
  intro ys hys y hy
  obtain ⟨x, hx, hfx⟩ := exists_of_mem_mapM hys hy
  exact h x hx y hfx

/-- What each result keeps of its input, the row keeps of the row. -/
theorem Yields.mapM_map {γ : Type} {f : α → Except ε β} {g : α → γ} {g' : β → γ} {xs : List α}
    (h : ∀ x ∈ xs, Yields (f x) fun y => g' y = g x) :
    Yields (xs.mapM f) fun ys => ys.map g' = xs.map g := by
  induction xs with
  | nil =>
    rw [List.mapM_nil]
    exact yields_ok rfl
  | cons x xs ih =>
    rw [List.mapM_cons]
    refine (h x List.mem_cons_self).bind fun y hy => ?_
    refine (ih fun z hz => h z (List.mem_cons_of_mem x hz)).bind fun ys hys => yields_ok ?_
    rw [List.map_cons, List.map_cons, hy, hys]

end TypeFacts
