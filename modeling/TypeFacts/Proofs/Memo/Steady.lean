import TypeFacts.Memo
import TypeFacts.Proofs.Outcome
import Mathlib.Tactic.Common

/-!
# Computations that do not depend on what is kept

A memo may answer for a computation only if each value in it is right for its key (`Memo.Holds`). A
computation that consults memos is steady when it gives one and the same result in all states in
which they are right, and leaves them right, whether it succeeds or fails (`Steady`). Steady
computations are closed under sequencing, so only the places where a memo is consulted need an
argument of their own.

Where results may depend on what is kept, a condition on them can still hold in all sound states
(`Ensures`), and follows step by step in the same way.
-/

namespace TypeFacts

/-! ### Memos whose values are right -/

namespace Memo

variable {κ α : Type} [DecidableEq κ]

/-- What was stored last under a key is found under it, and all else as before. -/
theorem find?_store (m : Memo κ α) (key other : κ) (x : α) :
    (m.store key x).2.find? other = if key = other then some ⟨m.next, x⟩ else m.find? other := by
  by_cases h : key = other
  · simp [find?, store, h]
  · have hfilter : ∀ e : κ × Stored α, (e.1 ≠ key ∧ e.1 = other) ↔ e.1 = other :=
      fun e => ⟨And.right, fun he => ⟨fun hk => h (hk ▸ he), he⟩⟩
    simp [find?, store, h, List.find?_filter, hfilter]

/-- Every value in the memo is right for its key. -/
def Holds (Right : κ → α → Prop) (m : Memo κ α) : Prop :=
  ∀ key stored, m.find? key = some stored → Right key stored.value

variable {Right : κ → α → Prop} {m : Memo κ α}

/-- In an empty memo all values are right. -/
theorem holds_empty : Holds Right (empty : Memo κ α) := by
  intro key stored h
  cases h

theorem holds_clear (m : Memo κ α) : Holds Right m.clear := by
  intro key stored h
  cases h

/-- Storing a right value keeps all values right. -/
theorem Holds.store (h : Holds Right m) {key : κ} {x : α} (hx : Right key x) :
    Holds Right (m.store key x).2 := by
  intro other stored hfind
  rw [find?_store] at hfind
  split_ifs at hfind with heq
  · rw [← heq, ← Option.some.inj hfind]
    exact hx
  · exact h other stored hfind

/-- Where everything with one key makes the same value, if it makes one at all, finding or making
gives what is made. -/
theorem Holds.findOrMake {ι ε : Type} {keyOf : ι → κ} {make : ι → Except ε α}
    (h : Holds (fun key x => ∀ i, keyOf i = key → make i = .ok x) m)
    (hcongr : ∀ i j x, keyOf i = keyOf j → make i = .ok x → make j = .ok x) (i : ι) :
    (m.findOrMake (keyOf i) fun _ => make i).1.map Stored.value = make i ∧
      Holds (fun key x => ∀ i, keyOf i = key → make i = .ok x)
        (m.findOrMake (keyOf i) fun _ => make i).2 := by
  unfold Memo.findOrMake
  cases hfind : m.find? (keyOf i) with
  | some stored => exact ⟨(h (keyOf i) stored hfind i rfl).symm, h⟩
  | none =>
    cases hmake : make i with
    | error e => exact ⟨rfl, h⟩
    | ok x => exact ⟨rfl, h.store fun j hj => hcongr i j x hj.symm hmake⟩

/-- Where all that is kept and all that is made meets a condition, so does what is found or made. -/
theorem Holds.findOrMake_yields {ε : Type} {P : α → Prop} {made : Except ε α}
    (h : Holds (fun _ => P) m) (hmade : Yields made P) (key : κ) :
    Yields ((m.findOrMake key fun _ => made).1.map Stored.value) P ∧
      Holds (fun _ => P) (m.findOrMake key fun _ => made).2 := by
  unfold Memo.findOrMake
  cases hfind : m.find? key with
  | some stored => exact ⟨yields_ok (h key stored hfind), h⟩
  | none =>
    cases made with
    | error e => exact ⟨yields_error e, h⟩
    | ok x => exact ⟨hmade, h.store (hmade x rfl)⟩

end Memo

/-! ### Steady computations -/

section Steady

variable {σ ε α β : Type} {Sound : σ → Prop}

/-- In every sound state the computation gives the value, and it leaves a sound state. -/
def Gives (Sound : σ → Prop) (x : StateM σ α) (v : α) : Prop :=
  ∀ s, Sound s → (x s).1 = v ∧ Sound (x s).2

/-- The computation gives one value in all sound states, and leaves them sound. -/
def Steady (Sound : σ → Prop) (x : StateM σ α) : Prop :=
  ∃ v, Gives Sound x v

/-- A steady computation gives the same in all sound states. -/
theorem Steady.eq {x : StateM σ α} (h : Steady Sound x) {s t : σ} (hs : Sound s) (ht : Sound t) :
    (x s).1 = (x t).1 := by
  obtain ⟨v, hv⟩ := h
  rw [(hv s hs).1, (hv t ht).1]

/-- It leaves a sound state. -/
theorem Steady.sound {x : StateM σ α} (h : Steady Sound x) {s : σ} (hs : Sound s) :
    Sound (x s).2 := by
  obtain ⟨v, hv⟩ := h
  exact (hv s hs).2

/-- A computation without steps gives its value. -/
theorem gives_pure (v : α) : Gives Sound (fun s => (v, s)) v :=
  fun _ hs => ⟨rfl, hs⟩

/-- What does not look at the state is steady. -/
theorem steady_pure (v : α) : Steady Sound (fun s => (v, s)) :=
  ⟨v, gives_pure v⟩

/-- A steady computation gives what it gives in any one sound state. -/
theorem Steady.gives {x : StateM σ α} (h : Steady Sound x) {b : σ} (hb : Sound b) :
    Gives Sound x (x b).1 :=
  fun _ hs => ⟨h.eq hs hb, h.sound hs⟩

/-- A computation with its result changed by a function. -/
theorem Gives.mapResult {x : StateM σ α} {v : α} (h : Gives Sound x v) (f : α → β) :
    Gives Sound (fun s => (f (x s).1, (x s).2)) (f v) :=
  fun s hs => ⟨congrArg f (h s hs).1, (h s hs).2⟩

/-- A computation on a part of the state, with its result changed by a function. -/
theorem Gives.zoom {τ : Type} {SoundPart : τ → Prop} {x : StateM τ α} {v : α}
    (h : Gives SoundPart x v) (part : σ → τ) (withPart : σ → τ → σ) (f : α → β)
    (hpart : ∀ s, Sound s → SoundPart (part s))
    (hwith : ∀ s t, Sound s → SoundPart t → Sound (withPart s t)) :
    Gives Sound (fun s => (f (x (part s)).1, withPart s (x (part s)).2)) (f v) := by
  intro s hs
  obtain ⟨hv, hsound⟩ := h (part s) (hpart s hs)
  exact ⟨congrArg f hv, hwith s _ hs hsound⟩

variable {x : ExceptT ε (StateM σ) α} {f : α → ExceptT ε (StateM σ) β}

/-- The second half runs where the first one stopped, unless this failed. -/
theorem run_bind_apply (s : σ) : (x >>= f).run s = match x.run s with
    | (.ok a, s) => (f a).run s
    | (.error e, s) => (.error e, s) := by
  show (match (x.run s).1 with
    | .ok a => (f a).run
    | .error e => pure (.error e)) (x.run s).2 = _
  rcases x.run s with ⟨_ | _, _⟩ <;> rfl

/-- A sequence that succeeds succeeds step by step. -/
theorem exists_of_run_bind {s : σ} {b : β} (h : ((x >>= f).run s).1 = .ok b) :
    ∃ a s', x.run s = (.ok a, s') ∧ ((f a).run s').1 = .ok b := by
  rw [run_bind_apply] at h
  rcases hrun : x.run s with ⟨e | a, s'⟩
  all_goals rw [hrun] at h
  · cases h
  · exact ⟨a, s', rfl, h⟩

theorem run_map_apply (g : α → β) (s : σ) :
    (g <$> x).run s = ((x.run s).1.map g, (x.run s).2) := by
  rw [map_eq_pure_bind, run_bind_apply]
  rcases x.run s with ⟨_ | _, _⟩ <;> rfl

theorem run_get_bind (f : σ → ExceptT ε (StateM σ) β) (s : σ) :
    (get >>= f).run s = (f s).run s := by
  rw [run_bind_apply]
  rfl

/-- What two halves give is what the second one gives for the result of the first one. -/
theorem Gives.bind {v : Except ε α} {w : α → Except ε β} (hx : Gives Sound x.run v)
    (hf : ∀ a, v = .ok a → Gives Sound (f a).run (w a)) : Gives Sound (x >>= f).run (v >>= w) := by
  intro s hs
  obtain ⟨hv, hsound⟩ := hx s hs
  rw [run_bind_apply]
  rcases h : x.run s with ⟨a, s'⟩
  rw [h] at hv hsound
  cases a with
  | ok a => rw [← hv]; exact hf a hv.symm s' hsound
  | error e => rw [← hv]; exact ⟨rfl, hsound⟩

/-- A sequence that succeeds succeeds step by step, from one sound state to the next. -/
theorem Gives.exists_of_bind {v : Except ε α} (hx : Gives Sound x.run v) {s : σ} (hs : Sound s)
    {b : β} (h : ((x >>= f).run s).1 = .ok b) :
    ∃ a s', v = .ok a ∧ Sound s' ∧ ((f a).run s').1 = .ok b := by
  obtain ⟨hv, hsound⟩ := hx s hs
  obtain ⟨a, s', hrun, h⟩ := exists_of_run_bind h
  rw [hrun] at hv hsound
  exact ⟨a, s', hv.symm, hsound, h⟩

/-- A sequence succeeds where its first step does in every sound state, and the rest after it. -/
theorem Gives.exists_bind {a : α} (hx : Gives Sound x.run (.ok a)) {s : σ} (hs : Sound s)
    {P : β → Prop} (hf : ∀ s', Sound s' → ∃ b, ((f a).run s').1 = .ok b ∧ P b) :
    ∃ b, ((x >>= f).run s).1 = .ok b ∧ P b := by
  obtain ⟨hv, hsound⟩ := hx s hs
  rw [run_bind_apply]
  rcases hrun : x.run s with ⟨v, s'⟩
  rw [hrun] at hv hsound
  obtain rfl : v = .ok a := hv
  exact hf s' hsound

/-- After a known result, the rest needs to be steady for this result only. -/
theorem Gives.steady_bind {v : Except ε α} (hx : Gives Sound x.run v)
    (hf : ∀ a, v = .ok a → Steady Sound (f a).run) : Steady Sound (x >>= f).run := by
  cases v with
  -- after an error nothing else runs
  | error e => exact ⟨.error e, hx.bind (w := fun _ => .error e) fun a ha => by cases ha⟩
  | ok a =>
    obtain ⟨r, hr⟩ := hf a rfl
    refine ⟨r, hx.bind (w := fun _ => r) fun a' ha => ?_⟩
    rwa [← Except.ok.inj ha]

/-- Steady halves make a steady computation. -/
theorem Steady.bind (hx : Steady Sound x.run) (hf : ∀ a, Steady Sound (f a).run) :
    Steady Sound (x >>= f).run := by
  obtain ⟨v, hv⟩ := hx
  exact hv.steady_bind fun a _ => hf a

/-- A computation that looks only at what all sound states have in common with a given one. -/
theorem Steady.get_bind {f : σ → ExceptT ε (StateM σ) β} (b : σ) (hf : ∀ s, Sound s → f s = f b)
    (h : Steady Sound (f b).run) : Steady Sound (get >>= f).run := by
  obtain ⟨v, hv⟩ := h
  refine ⟨v, fun s hs => ?_⟩
  rw [run_get_bind, hf s hs]
  exact hv s hs

/-- Over a list the results come one after the other. -/
theorem Gives.mapM {f : α → ExceptT ε (StateM σ) β} {w : α → Except ε β} :
    ∀ {l : List α}, (∀ a ∈ l, Gives Sound (f a).run (w a)) → Gives Sound (l.mapM f).run (l.mapM w)
  | [], _ => by
    rw [List.mapM_nil, List.mapM_nil]
    exact gives_pure _
  | a :: l, h => by
    rw [List.mapM_cons, List.mapM_cons]
    refine (h a List.mem_cons_self).bind fun b _ => Gives.bind ?_ fun bs _ => gives_pure _
    exact Gives.mapM fun c hc => h c (List.mem_cons_of_mem a hc)

/-- Over a list a steady computation is steady. -/
theorem Steady.mapM {f : α → ExceptT ε (StateM σ) β} {l : List α}
    (h : ∀ a ∈ l, Steady Sound (f a).run) : Steady Sound (l.mapM f).run := by
  induction l with
  | nil =>
    rw [List.mapM_nil]
    exact steady_pure _
  | cons a l ih =>
    rw [List.mapM_cons]
    refine (h a List.mem_cons_self).bind fun b => Steady.bind ?_ fun bs => steady_pure _
    exact ih fun c hc => h c (List.mem_cons_of_mem a hc)

/-- So are steps that carry a value along. -/
theorem Steady.foldlM {f : β → α → ExceptT ε (StateM σ) β} {l : List α}
    (h : ∀ b, ∀ a ∈ l, Steady Sound (f b a).run) (b : β) : Steady Sound (l.foldlM f b).run := by
  induction l generalizing b with
  | nil =>
    rw [List.foldlM_nil]
    exact steady_pure _
  | cons a l ih =>
    rw [List.foldlM_cons]
    refine (h b a List.mem_cons_self).bind fun c => ?_
    exact ih (fun d e he => h d e (List.mem_cons_of_mem a he)) c

/-! ### Conditions on results -/

/-- In every sound state the result, where there is one, meets the condition, and the state that is
left behind is sound. -/
def Ensures (Sound : σ → Prop) (Post : α → Prop) (x : ExceptT ε (StateM σ) α) : Prop :=
  ∀ s, Sound s → Yields (x.run s).1 Post ∧ Sound (x.run s).2

variable {P : α → Prop} {Q : β → Prop}

theorem ensures_pure {a : α} (h : P a) : Ensures Sound P (pure a : ExceptT ε (StateM σ) α) :=
  fun _ hs => ⟨yields_ok h, hs⟩

/-- What the first half ensures may be used by the second one. -/
theorem Ensures.bind (hx : Ensures Sound P x) (hf : ∀ a, P a → Ensures Sound Q (f a)) :
    Ensures Sound Q (x >>= f) := by
  intro s hs
  obtain ⟨hyields, hsound⟩ := hx s hs
  rw [run_bind_apply]
  rcases h : x.run s with ⟨e | a, s'⟩
  all_goals rw [h] at hyields hsound
  · exact ⟨yields_error e, hsound⟩
  · exact hf a (hyields a rfl) s' hsound

/-- A condition may be weakened. -/
theorem Ensures.imp {R : α → Prop} (h : Ensures Sound P x) (himp : ∀ a, P a → R a) :
    Ensures Sound R x :=
  fun s hs => ⟨fun a ha => himp a ((h s hs).1 a ha), (h s hs).2⟩

theorem Ensures.and {R : α → Prop} (hp : Ensures Sound P x) (hr : Ensures Sound R x) :
    Ensures Sound (fun a => P a ∧ R a) x :=
  fun s hs => ⟨fun a ha => ⟨(hp s hs).1 a ha, (hr s hs).1 a ha⟩, (hp s hs).2⟩

/-- Over a list each result satisfies the condition. -/
theorem Ensures.mapM {f : α → ExceptT ε (StateM σ) β} {l : List α}
    (h : ∀ a ∈ l, Ensures Sound Q (f a)) : Ensures Sound (fun bs => ∀ b ∈ bs, Q b) (l.mapM f) := by
  induction l with
  | nil =>
    rw [List.mapM_nil]
    exact ensures_pure fun b hb => by cases hb
  | cons a l ih =>
    rw [List.mapM_cons]
    refine (h a List.mem_cons_self).bind fun b hb => ?_
    refine (ih fun c hc => h c (List.mem_cons_of_mem a hc)).bind fun bs hbs => ?_
    exact ensures_pure (List.forall_mem_cons.mpr ⟨hb, hbs⟩)

/-- What each result keeps of its input, the row keeps of the row. -/
theorem Ensures.mapM_map {γ : Type} {f : α → ExceptT ε (StateM σ) β} {g : α → γ} {g' : β → γ}
    {l : List α} (h : ∀ a ∈ l, Ensures Sound (fun b => g' b = g a) (f a)) :
    Ensures Sound (fun bs => bs.map g' = l.map g) (l.mapM f) := by
  induction l with
  | nil =>
    rw [List.mapM_nil]
    exact ensures_pure rfl
  | cons a l ih =>
    rw [List.mapM_cons]
    refine (h a List.mem_cons_self).bind fun b hb => ?_
    refine (ih fun c hc => h c (List.mem_cons_of_mem a hc)).bind fun bs hbs => ensures_pure ?_
    rw [List.map_cons, List.map_cons, hb, hbs]

/-- A row of results with names. -/
theorem Ensures.mapM_named {name : α → String} {f : α → ExceptT ε (StateM σ) β} {l : List α}
    {Q : String → β → Prop} (h : ∀ a ∈ l, Ensures Sound (Q (name a)) (f a)) :
    Ensures Sound (fun pairs => pairs.map Prod.fst = l.map name ∧ ∀ e ∈ pairs, Q e.1 e.2)
      (l.mapM fun a => do return (name a, ← f a)) := by
  refine (Ensures.mapM_map fun a ha => ?_).and (Ensures.mapM fun a ha => ?_)
  · exact (h a ha).bind fun b _ => ensures_pure rfl
  · exact (h a ha).bind fun b hb => ensures_pure hb

/-- A condition that each step keeps holds at the end. -/
theorem Ensures.foldlM {f : β → α → ExceptT ε (StateM σ) β} {l : List α}
    (h : ∀ b, Q b → ∀ a ∈ l, Ensures Sound Q (f b a)) {b : β} (hb : Q b) :
    Ensures Sound Q (l.foldlM f b) := by
  induction l generalizing b with
  | nil =>
    rw [List.foldlM_nil]
    exact ensures_pure hb
  | cons a l ih =>
    rw [List.foldlM_cons]
    refine (h b hb a List.mem_cons_self).bind fun c hc => ?_
    exact ih (fun d hd e he => h d hd e (List.mem_cons_of_mem a he)) hc

/-- The result, where there is one, meets the condition in whatever state. -/
abbrev Always (Post : α → Prop) (x : ExceptT ε (StateM σ) α) : Prop :=
  Ensures (fun _ => True) Post x

theorem always_true (x : ExceptT ε (StateM σ) α) : Always (fun _ => True) x :=
  fun _ _ => ⟨fun _ _ => trivial, trivial⟩

/-- What does not look at the state meets a condition in whatever state it does. -/
theorem always_of_yields {v : Except ε α} (h : Yields v P) :
    Always P (liftM v : ExceptT ε (StateM σ) α) :=
  fun _ _ => ⟨h, trivial⟩

end Steady

end TypeFacts
