import TypeFacts.Proofs.Doc.Written

/-!
# Kept blocks are never out of date

A reader of doc comments keeps the blocks it has read, and its table of tag readers may change at
any time. Whatever was parsed, registered and cleared before, a comment gives the block that a new
reader with the present table gives, and two answers come from one store exactly when they are for
the same comment and nothing was registered or cleared between them (`Reader.parse_up_to_date`).

Stored blocks are told apart by their serial numbers. Three facts about a memo go through a run, and
each is a matter of one step: numbers are below the next one and no two comments share one
(`Memo.Numbered`), what is kept stays as long as comments are only parsed
(`Reader.find?_after_parses`), and after a change of the table all numbers are new (`Memo.Since`).
-/

namespace TypeFacts

/-! ### Serial numbers -/

namespace Memo

variable {κ α : Type} [DecidableEq κ] {m : Memo κ α} {key : κ} {x : α}

/-- Every number is below the next one, and no two keys share a number. -/
structure Numbered (m : Memo κ α) : Prop where
  below : ∀ key stored, m.find? key = some stored → stored.serial < m.next
  distinct : ∀ key other stored stored', m.find? key = some stored → m.find? other = some stored' →
    stored.serial = stored'.serial → key = other

theorem numbered_empty : Numbered (empty : Memo κ α) :=
  ⟨fun _ _ h => (by cases h), fun _ _ _ _ h => (by cases h)⟩

theorem numbered_clear (m : Memo κ α) : Numbered m.clear :=
  ⟨fun _ _ h => (by cases h), fun _ _ _ _ h => (by cases h)⟩

/-- What is stored gets a number of its own. -/
theorem Numbered.store (h : Numbered m) : Numbered (m.store key x).2 := by
  have hfound : ∀ other stored, (m.store key x).2.find? other = some stored →
      (other = key ∧ stored.serial = m.next) ∨ m.find? other = some stored := by
    intro other stored hfind
    rw [find?_store] at hfind
    split_ifs at hfind with heq
    · exact .inl ⟨heq.symm, (congrArg Stored.serial (Option.some.inj hfind)).symm⟩
    · exact .inr hfind
  refine ⟨fun other stored hfind => ?_, fun a b stored stored' ha hb hserial => ?_⟩
  · change stored.serial < m.next + 1
    rcases hfound other stored hfind with ⟨-, hserial⟩ | hfind
    · omega
    · have := h.below other stored hfind
      omega
  · -- the new number is next, and all others are below it
    rcases hfound a stored ha with ⟨hkey, hnew⟩ | ha <;>
      rcases hfound b stored' hb with ⟨hkey', hnew'⟩ | hb
    · rw [hkey, hkey']
    · have := h.below b stored' hb
      omega
    · have := h.below a stored ha
      omega
    · exact h.distinct a b stored stored' ha hb hserial

/-- All numbers are at least the given one. -/
structure Since (n : Nat) (m : Memo κ α) : Prop where
  next : n ≤ m.next
  found : ∀ key stored, m.find? key = some stored → n ≤ stored.serial

theorem since_clear {n : Nat} (h : n ≤ m.next) : Since n m.clear :=
  ⟨h, fun _ _ h => (by cases h)⟩

/-- What is stored later has no smaller number. -/
theorem Since.store {n : Nat} (h : Since n m) : Since n (m.store key x).2 := by
  refine ⟨h.next.trans (Nat.le_succ m.next), fun other stored hfind => ?_⟩
  rw [find?_store] at hfind
  split_ifs at hfind
  · rw [← Option.some.inj hfind]
    exact h.next
  · exact h.found other stored hfind

end Memo

namespace Doc.Reader

/-! ### One step -/

variable {r : Reader} {text : String} {stored : Stored DocBlock}

/-- What parsing can do to the memo: nothing, or it stores a block for a comment that had none. -/
theorem memo_parse (r : Reader) (comment : Option String) :
    (r.parse comment).2.memo = r.memo ∨
      ∃ text block, r.memo.find? text = none ∧
        (r.parse comment).2.memo = (r.memo.store text block).2 := by
  unfold parse
  split
  · exact .inl rfl
  · next text =>
    split_ifs
    · exact .inl rfl
    · split
      · exact .inl rfl
      · next hfind => exact .inr ⟨text, _, hfind, rfl⟩

/-- The block of a comment that is not empty is in the memo afterwards. -/
theorem exists_stored_parse (r : Reader) (h : text ≠ "") :
    ∃ stored, (r.parse (some text)).2.memo.find? text = some stored ∧
      (r.parse (some text)).1 = (some stored.serial, stored.value) := by
  have hempty : ¬ text.isEmpty = true := mt String.isEmpty_iff.mp h
  unfold parse
  simp only [if_neg hempty]
  cases hfind : r.memo.find? text with
  | some stored => exact ⟨stored, hfind, rfl⟩
  | none =>
    refine ⟨⟨r.memo.next, readBlock r.readers text⟩, ?_, rfl⟩
    change (r.memo.store text _).2.find? text = _
    rw [Memo.find?_store, if_pos rfl]

/-- Whatever a reader is asked to do, numbers stay apart. -/
theorem numbered_step (h : r.memo.Numbered) (act : Act) : (r.step act).memo.Numbered := by
  cases act with
  | parse comment =>
    change (r.parse comment).2.memo.Numbered
    rcases memo_parse r comment with hmemo | ⟨text, block, -, hmemo⟩
    · rwa [hmemo]
    · rw [hmemo]
      exact h.store
  | register name reader => exact Memo.numbered_clear _
  | clear => exact Memo.numbered_clear _

/-- Whatever a reader is asked to do, it stores nothing under an older number. -/
theorem since_step {n : Nat} (h : r.memo.Since n) (act : Act) : (r.step act).memo.Since n := by
  cases act with
  | parse comment =>
    change (r.parse comment).2.memo.Since n
    rcases memo_parse r comment with hmemo | ⟨text, block, -, hmemo⟩
    · rwa [hmemo]
    · rw [hmemo]
      exact h.store
  | register name reader => exact Memo.since_clear h.next
  | clear => exact Memo.since_clear h.next

/-- Parsing keeps the blocks that are there. -/
theorem find?_step_parse (h : r.memo.find? text = some stored) (comment : Option String) :
    (r.step (.parse comment)).memo.find? text = some stored := by
  change (r.parse comment).2.memo.find? text = some stored
  rcases memo_parse r comment with hmemo | ⟨other, block, hnone, hmemo⟩
  · rwa [hmemo]
  · have hne : other ≠ text := fun heq => by
      rw [heq, h] at hnone
      cases hnone
    rw [hmemo, Memo.find?_store, if_neg hne, h]

/-! ### Runs -/

/-- The tag readers that are registered in a run, in order. -/
def registered : List Act → List (String × TagReader)
  | [] => []
  | .register name reader :: acts => (name, reader) :: registered acts
  | .parse _ :: acts => registered acts
  | .clear :: acts => registered acts

/-- Is the act a parse? -/
def Act.isParse : Act → Bool
  | .parse _ => true
  | _ => false

theorem readers_parse (r : Reader) (comment : Option String) :
    (r.parse comment).2.readers = r.readers := by
  unfold parse
  split
  · rfl
  · split_ifs
    · rfl
    · split <;> rfl

/-- The table of a run is that of its beginning with all that was registered. -/
theorem readers_after (r : Reader) (acts : List Act) :
    (r.after acts).readers = r.readers.insertAll (registered acts) := by
  induction acts generalizing r with
  | nil => rfl
  | cons act acts ih =>
    refine (ih (r.step act)).trans ?_
    cases act with
    | parse comment =>
      change (r.parse comment).2.readers.insertAll _ = _
      rw [readers_parse]
      rfl
    | register name reader => rfl
    | clear => rfl

theorem readers_new_append (further more : List (String × TagReader)) :
    (new (further ++ more)).readers = (new further).readers.insertAll more :=
  List.foldl_append

theorem after_append (r : Reader) (acts more : List Act) :
    r.after (acts ++ more) = (r.after acts).after more :=
  List.foldl_append

theorem numbered_after (h : r.memo.Numbered) (acts : List Act) : (r.after acts).memo.Numbered := by
  induction acts generalizing r with
  | nil => exact h
  | cons act acts ih => exact ih (numbered_step h act)

theorem since_after {n : Nat} (h : r.memo.Since n) (acts : List Act) :
    (r.after acts).memo.Since n := by
  induction acts generalizing r with
  | nil => exact h
  | cons act acts ih => exact ih (since_step h act)

/-- As long as comments are only parsed, a block stays. -/
theorem find?_after_parses (h : r.memo.find? text = some stored) {acts : List Act}
    (hparses : ∀ act ∈ acts, act.isParse = true) :
    (r.after acts).memo.find? text = some stored := by
  induction acts generalizing r with
  | nil => exact h
  | cons act acts ih =>
    obtain ⟨hact, hacts⟩ := List.forall_mem_cons.mp hparses
    cases act with
    | parse comment => exact ih (find?_step_parse h comment) hacts
    | register name reader => cases hact
    | clear => cases hact

/-- The next number never goes down. -/
theorem next_le_after (r : Reader) (acts : List Act) : r.memo.next ≤ (r.after acts).memo.next := by
  induction acts generalizing r with
  | nil => exact le_rfl
  | cons act acts ih =>
    refine le_trans ?_ (ih (r.step act))
    cases act with
    | parse comment =>
      change r.memo.next ≤ (r.parse comment).2.memo.next
      rcases memo_parse r comment with hmemo | ⟨text, block, -, hmemo⟩
      · rw [hmemo]
      · rw [hmemo]
        exact Nat.le_succ _
    | register name reader => exact le_rfl
    | clear => exact le_rfl

/-- Once something else than parsing was done, all numbers are new. -/
theorem since_after_change {acts : List Act} {act : Act} (hact : act ∈ acts)
    (hother : act.isParse = false) (r : Reader) : (r.after acts).memo.Since r.memo.next := by
  obtain ⟨before, behind, rfl⟩ := List.append_of_mem hact
  rw [after_append]
  refine since_after ?_ behind
  have hcleared : ((r.after before).step act).memo = (r.after before).memo.clear := by
    cases act with
    | parse comment => cases hother
    | register name reader => rfl
    | clear => rfl
  rw [hcleared]
  exact Memo.since_clear (next_le_after r before)

/-! ### Answers -/

/-- The answer to a comment after a run: the number it is stored under, if it is, and the block. -/
def answer (further : List (String × TagReader)) (acts : List Act) (comment : Option String) :
    Option Nat × DocBlock :=
  (((new further).after acts).parse comment).1

/-- The block is what the tag readers of the beginning and those registered since find. -/
theorem answer_block (further : List (String × TagReader)) (acts : List Act)
    (comment : Option String) :
    (answer further acts comment).2
      = blockOf (new (further ++ registered acts)).readers comment := by
  rw [readers_new_append, ← readers_after]
  exact (gives_block comment _ ((sound_new further).after acts)).1

/-- As long as comments are only parsed, a comment that is kept gives what is kept. -/
theorem parse_after_parses (h : text ≠ "") (hstored : r.memo.find? text = some stored)
    {acts : List Act} (hparses : ∀ act ∈ acts, act.isParse = true) :
    ((r.after acts).parse (some text)).1 = (some stored.serial, stored.value) := by
  obtain ⟨stored', hfind, hanswer⟩ := exists_stored_parse (r.after acts) h
  have hkept := find?_step_parse (find?_after_parses hstored hparses) (some text)
  obtain rfl : stored = stored' := Option.some.inj (hkept.symm.trans hfind)
  exact hanswer

/-- The number of a kept comment is given to no other comment, and to none after a change. -/
theorem eq_of_serial_eq (hr : r.memo.Numbered) (hstored : r.memo.find? text = some stored)
    {acts : List Act} {other : String}
    (hserial : ((r.after acts).parse (some other)).1.1 = some stored.serial) :
    other = text ∧ ∀ act ∈ acts, act.isParse = true := by
  have hother : other ≠ "" := by
    rintro rfl
    cases hserial
  obtain ⟨stored', hfind, hanswer⟩ := exists_stored_parse (r.after acts) hother
  rw [hanswer] at hserial
  have heq : stored'.serial = stored.serial := Option.some.inj hserial
  by_cases hparses : ∀ act ∈ acts, act.isParse = true
  · have hnumbered := numbered_step (numbered_after hr acts) (.parse (some other))
    have hkept := find?_step_parse (find?_after_parses hstored hparses) (some other)
    exact ⟨hnumbered.distinct other text stored' stored hfind hkept heq, hparses⟩
  · push Not at hparses
    obtain ⟨act, hact, hchange⟩ := hparses
    have hsince :=
      since_step (since_after_change hact (by simpa using hchange) r) (.parse (some other))
    have hnew := hsince.found other stored' hfind
    have hold := hr.below text stored hstored
    omega

/-- Kept blocks are never out of date. Whatever was parsed, registered and cleared before, a comment
gives the block that a new reader with the present table of tag readers gives, and the answer to a
comment that is not empty is stored: a later answer comes from the same store exactly when it is for
the same comment and nothing was registered or cleared between them, and then it is the same. -/
theorem parse_up_to_date (further : List (String × TagReader)) (acts : List Act) :
    (new (further ++ registered acts)).readers = ((new further).after acts).readers ∧
    (∀ comment, (answer further acts comment).2
      = (answer (further ++ registered acts) [] comment).2) ∧
    ∀ (text other : String) (between : List Act), text ≠ "" →
      (answer further acts (some text)).1.isSome = true ∧
      ((answer further (acts ++ .parse (some text) :: between) (some other)).1
          = (answer further acts (some text)).1 ↔
        other = text ∧ ∀ act ∈ between, act.isParse = true) ∧
      ((∀ act ∈ between, act.isParse = true) →
        answer further (acts ++ .parse (some text) :: between) (some text)
          = answer further acts (some text)) := by
  refine ⟨?_, fun comment => ?_, fun text other between h => ?_⟩
  · rw [readers_new_append, readers_after]
  · rw [answer_block, answer_block, registered, List.append_nil]
  · have hnumbered : ((new further).after (acts ++ [.parse (some text)])).memo.Numbered :=
      numbered_after Memo.numbered_empty _
    obtain ⟨stored, hstored, hfirst⟩ := exists_stored_parse ((new further).after acts) h
    have hrun : (new further).after (acts ++ .parse (some text) :: between)
        = (((new further).after acts).parse (some text)).2.after between := after_append _ _ _
    rw [after_append] at hnumbered
    unfold answer
    rw [hrun, hfirst]
    have hkept : (∀ act ∈ between, act.isParse = true) →
        (((((new further).after acts).parse (some text)).2.after between).parse (some text)).1
          = (some stored.serial, stored.value) := parse_after_parses h hstored
    refine ⟨rfl, ⟨fun hserial => eq_of_serial_eq hnumbered hstored hserial, ?_⟩, hkept⟩
    rintro ⟨rfl, hparses⟩
    rw [hkept hparses]

/-- A tag reader that takes the whole content for a type. -/
def typeReader : TagReader := fun content => .ok [("type", .str content)]

/-- A reader registered after a comment was parsed counts, and the block is a new one; another
comment in between changes nothing. -/
theorem parse_up_to_date_registered :
    "/** @x a */" ≠ "" ∧
    (answer [] [.parse (some "/** @x a */"), .register "x" typeReader] (some "/** @x a */")).2
      = (answer [("x", typeReader)] [] (some "/** @x a */")).2 ∧
    (answer [] [.parse (some "/** @x a */"), .parse (some "/** */")] (some "/** @x a */"))
      = (answer [] [] (some "/** @x a */")) ∧
    (answer [] [.parse (some "/** @x a */"), .register "x" typeReader] (some "/** @x a */")).1
      ≠ (answer [] [] (some "/** @x a */")).1 := by
  obtain ⟨-, hblock, -⟩ :=
    parse_up_to_date [] [.parse (some "/** @x a */"), .register "x" typeReader]
  obtain ⟨-, -, hstore⟩ := parse_up_to_date [] []
  have hne : "/** @x a */" ≠ "" := by decide
  obtain ⟨-, -, hkept⟩ := hstore "/** @x a */" "/** @x a */" [.parse (some "/** */")] hne
  obtain ⟨-, hsame, -⟩ := hstore "/** @x a */" "/** @x a */" [.register "x" typeReader] hne
  refine ⟨hne, hblock _, hkept (by decide), fun heq => ?_⟩
  have hparse := (hsame.mp heq).2 _ List.mem_cons_self
  cases hparse

end Doc.Reader

end TypeFacts
