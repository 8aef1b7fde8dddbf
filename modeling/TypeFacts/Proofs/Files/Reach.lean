import TypeFacts.Files.FileTree
import TypeFacts.Proofs.Outcome
import TypeFacts.Proofs.Text.Trim

/-!
# Where paths lead

A path is followed from one component to the next, and this ends in one of three ways. Something is
in the way: a directory that may not be searched, or a name that is too long
(`FileTree.follow_eq_error_iff`). Or there is no directory to look in, and the path leads nowhere.
Or the path leads to what stands where its components settle (`FileTree.follow_eq_ok`), whichever
directories it goes through.

Hence it is known exactly which paths cannot be asked for a file (`FileTree.isFile_eq_error_iff`),
such as those with a long name behind open directories (`FileTree.blocked_of_long`), and two paths
that lead to files and resolve alike lead to one file (`FileTree.file?_of_resolve_eq`).
-/

namespace TypeFacts

/-! ### Paths and their texts -/

/-- Every character takes at least one byte. -/
theorem Utf8.length_le_length_encode (s : String) : s.toList.length ≤ (encode s).length := by
  have hchar : ∀ c : Char, 1 ≤ (encodeChar c).length := by
    intro c
    unfold encodeChar
    simp only
    split_ifs <;> simp
  unfold encode
  induction s.toList with
  | nil => exact Nat.zero_le _
  | cons c cs ih =>
    have hc := hchar c
    rw [List.flatMap_cons, List.length_append, List.length_cons]
    omega

namespace Path

/-- The component says something, and is one component. -/
def IsPlain (part : String) : Prop :=
  part ≠ "" ∧ part ≠ "." ∧ ∀ c ∈ part.toList, c ≠ '/'

/-- Plain components are read back from their text. -/
theorem partsOf_joined {parts : List String} (h : ∀ part ∈ parts, IsPlain part) :
    partsOf (Text.joined "/" parts).toList = parts := by
  have hkept : ∀ part, IsPlain part → (part != "" && part != ".") = true := by
    rintro part ⟨hempty, hdot, -⟩
    simp [hempty, hdot]
  rw [Text.joined, String.toList_intercalate]
  show partsOf (['/'].intercalate _) = _
  induction parts with
  | nil => rfl
  | cons part parts ih =>
    obtain ⟨hpart, hrest⟩ := List.forall_mem_cons.mp h
    have hslash : ∀ c ∈ part.toList, (c == '/') = false := fun c hc =>
      beq_false_of_ne (hpart.2.2 c hc)
    cases parts with
    | nil =>
      rw [List.map_cons, List.map_nil, List.intercalate_singleton, partsOf,
        Text.splitAt_of_forall hslash]
      simp [hkept part hpart]
    | cons next parts =>
      rw [List.map_cons, List.map_cons, List.intercalate_cons_cons, List.append_assoc, partsOf,
        List.singleton_append, Text.splitAt_append_cons hslash rfl, List.map_cons,
        String.ofList_toList, List.filter_cons, if_pos (hkept part hpart)]
      exact congrArg (part :: ·) (ih hrest)

/-- The text of plain components does not begin with a slash. -/
theorem joined_ne_slash_cons {part : String} (h : IsPlain part) (parts : List String)
    (cs : List Char) : (Text.joined "/" (part :: parts)).toList ≠ '/' :: cs := by
  obtain ⟨hempty, -, hslash⟩ := h
  rw [Text.joined, String.toList_intercalate]
  intro htext
  cases hpart : part.toList with
  | nil => exact hempty (String.toList_eq_nil_iff.mp hpart)
  | cons c rest =>
    have hc : c ≠ '/' := hslash c (hpart ▸ List.mem_cons_self)
    cases parts with
    | nil =>
      rw [List.map_cons, List.map_nil, List.intercalate_singleton, hpart] at htext
      exact hc (List.cons.inj htext).1
    | cons next parts =>
      rw [List.map_cons, List.map_cons, List.intercalate_cons_cons, hpart] at htext
      exact hc (List.cons.inj htext).1

theorem partsOf_slash_cons (cs : List Char) : partsOf ('/' :: cs) = partsOf cs := by
  simp [partsOf, Text.splitAt]

/-- A path of plain components is read back from its text. -/
theorem ofText_text {p : Path} (hroot : p.root = "" ∨ p.root = "/")
    (hparts : ∀ part ∈ p.parts, IsPlain part) : ofText p.text = p := by
  obtain ⟨root, parts⟩ := p
  cases parts with
  | nil => rcases hroot with rfl | rfl <;> decide +kernel
  | cons part parts =>
    have hfront := joined_ne_slash_cons (hparts part List.mem_cons_self) parts
    have hback := partsOf_joined hparts
    rcases hroot with rfl | rfl
    · have htext : (⟨"", part :: parts⟩ : Path).text = Text.joined "/" (part :: parts) := by
        simp [text]
      rw [htext, ofText]
      simp only [hback]
      split
      · next heq => exact absurd heq (hfront _)
      · next heq => exact absurd heq (hfront _)
      · next heq => exact absurd heq (hfront _)
      · rfl
    · have htext : (⟨"/", part :: parts⟩ : Path).text.toList
          = '/' :: (Text.joined "/" (part :: parts)).toList := by
        simp [text, String.toList_append]
      rw [ofText, htext, partsOf_slash_cons]
      simp only [hback]
      split
      · next heq => exact absurd (List.cons.inj heq).2 (hfront _)
      · next heq => exact absurd (List.cons.inj heq).2 (hfront _)
      · rfl
      · next hother => exact absurd rfl (hother _)

/-- The components that are gone through lead where the components lead. -/
theorem settle_steps (p : Path) (place : List String) :
    settle place p.steps = settle place p.parts := by
  unfold steps
  split_ifs with hdot
  · have hparts : p.parts = [] := by simpa using (Bool.and_eq_true_iff.mp hdot).2
    rw [hparts]
    rfl
  · rfl

end Path

namespace FileTree

variable {t : FileTree} {place before rest : List String} {name : String} {o : Obstacle}
  {p q : Path}
  {e : PathFault} {bytes : List UInt8} {readable : Bool}

/-! ### One component -/

/-- There is a directory at the place, and its names may be looked up. -/
def IsOpen (t : FileTree) (place : List String) : Prop :=
  ∃ listable, t.entry? place = some (.directory listable true)

/-- There is a directory at the place, and its names may not be looked up. -/
def IsClosed (t : FileTree) (place : List String) : Prop :=
  ∃ listable, t.entry? place = some (.directory listable false)

theorem IsOpen.not_isClosed (h : t.IsOpen place) : ¬t.IsClosed place := by
  obtain ⟨_, hopen⟩ := h
  rintro ⟨_, hclosed⟩
  rw [hopen] at hclosed
  cases hclosed

/-- From an open directory a component leads on, unless it is too long. -/
theorem step_of_isOpen (h : t.IsOpen place) (name : String) : t.step place name =
    if isLongName name then .error .longName else .ok (some (Path.enter place name)) := by
  have hdot : isLongName "." = false ∧ isLongName ".." = false := by decide +kernel
  obtain ⟨listable, hentry⟩ := h
  -- the dots are short, so that the exception made for them changes nothing
  have hlong : (name != "." && name != ".." && isLongName name) = isLongName name := by
    by_cases h₁ : name = "."
    · rw [h₁, hdot.1, Bool.and_false]
    by_cases h₂ : name = ".."
    · rw [h₂, hdot.2, Bool.and_false]
    simp [h₁, h₂]
  simp only [step, hentry, hlong]

/-- A closed directory lets no component through. -/
theorem step_of_isClosed (h : t.IsClosed place) (name : String) :
    t.step place name = .error .noSearch := by
  obtain ⟨listable, hentry⟩ := h
  simp only [step, hentry]

/-- Where there is no directory a component leads nowhere. -/
theorem step_of_no_directory (hopen : ¬t.IsOpen place) (hclosed : ¬t.IsClosed place)
    (name : String) : t.step place name = .ok none := by
  unfold step
  split
  · next listable hentry => exact absurd ⟨listable, hentry⟩ hopen
  · next listable hentry => exact absurd ⟨listable, hentry⟩ hclosed
  · rfl

/-! ### All components -/

/-- The obstacle is the first on the way that components lead from a place: the directories before
it are open and the names before it are short. -/
def Obstructs (t : FileTree) (o : Obstacle) (place parts : List String) : Prop :=
  ∃ before name rest, parts = before ++ name :: rest ∧
    (∀ first next later, before = first ++ next :: later →
      t.IsOpen (Path.settle place first) ∧ isLongName next = false) ∧
    match o with
    | .noSearch => t.IsClosed (Path.settle place before)
    | .longName => t.IsOpen (Path.settle place before) ∧ isLongName name = true

theorem not_obstructs_nil : ¬t.Obstructs o place [] := by
  rintro ⟨before, name, rest, hparts, -⟩
  simp at hparts

/-- The first component meets the obstacle, or leads into a directory from where it is met. -/
theorem obstructs_cons : t.Obstructs o place (name :: rest) ↔
    o = .noSearch ∧ t.IsClosed place ∨ o = .longName ∧ t.IsOpen place ∧ isLongName name = true ∨
      (t.IsOpen place ∧ isLongName name = false) ∧ t.Obstructs o (Path.enter place name) rest := by
  constructor
  · rintro ⟨before, next, later, hparts, hbefore, hmet⟩
    cases before with
    | nil =>
      obtain ⟨rfl, rfl⟩ := List.cons.inj hparts
      cases o with
      | noSearch => exact Or.inl ⟨rfl, hmet⟩
      | longName => exact Or.inr (Or.inl ⟨rfl, hmet⟩)
    | cons head before =>
      obtain ⟨rfl, rfl⟩ := List.cons.inj hparts
      refine Or.inr (Or.inr ⟨hbefore [] name before rfl, before, next, later, rfl, ?_, hmet⟩)
      intro first middle last hsplit
      exact hbefore (name :: first) middle last (congrArg (name :: ·) hsplit)
  · rintro (⟨rfl, hclosed⟩ | ⟨rfl, hlong⟩ | ⟨hfirst, before, next, later, rfl, hbefore, hmet⟩)
    · exact ⟨[], name, rest, rfl, fun first _ _ h => by simp at h, hclosed⟩
    · exact ⟨[], name, rest, rfl, fun first _ _ h => by simp at h, hlong⟩
    · refine ⟨name :: before, next, later, rfl, fun first middle last hsplit => ?_, hmet⟩
      cases first with
      | nil =>
        obtain ⟨rfl, -⟩ := List.cons.inj hsplit
        exact hfirst
      | cons head first =>
        obtain ⟨rfl, hrest⟩ := List.cons.inj hsplit
        exact hbefore first middle last hrest

theorem follow_cons (t : FileTree) (place : List String) (name : String) (rest : List String) :
    t.follow place (name :: rest) = t.step place name >>= fun
      | none => .ok .nothing
      | some inner => t.follow inner rest :=
  rfl

/-- Following fails exactly where an obstacle is met. -/
theorem follow_eq_error_iff {parts : List String} :
    t.follow place parts = .error o ↔ t.Obstructs o place parts := by
  -- the induction is on the components; the place goes along
  induction parts generalizing place with
  | nil => simp [follow, not_obstructs_nil]
  | cons name rest ih =>
    rw [follow_cons, obstructs_cons, ← ih]
    by_cases hopen : t.IsOpen place
    · have hclosed := hopen.not_isClosed
      rw [step_of_isOpen hopen]
      cases hlong : isLongName name with
      | true => simp [hopen, hclosed, bind, Except.bind, @eq_comm _ o]
      | false => simp [hopen, hclosed, bind, Except.bind]
    · by_cases hclosed : t.IsClosed place
      · rw [step_of_isClosed hclosed]
        simp [hopen, hclosed, bind, Except.bind, @eq_comm _ o]
      · rw [step_of_no_directory hopen hclosed]
        simp [hopen, hclosed, bind, Except.bind]

/-- Without an obstacle, components lead to what stands where they settle, or nowhere. -/
theorem follow_eq_ok {parts : List String} {target : Target}
    (h : t.follow place parts = .ok target) :
    target = .nothing ∨ target = t.target (Path.settle place parts) := by
  induction parts generalizing place with
  | nil => exact Or.inr (Except.ok.inj h).symm
  | cons name rest ih =>
    rw [follow_cons] at h
    by_cases hopen : t.IsOpen place
    · rw [step_of_isOpen hopen] at h
      split_ifs at h
      · cases h
      · exact ih h
    · by_cases hclosed : t.IsClosed place
      · rw [step_of_isClosed hclosed] at h
        cases h
      · rw [step_of_no_directory hopen hclosed] at h
        exact Or.inl (Except.ok.inj h).symm

/-! ### Faults of paths -/

/-- The fault that keeps a path from being followed. A path with the null character is not followed
at all. -/
def Blocked (t : FileTree) (p : Path) (e : PathFault) : Prop :=
  p.hasNull = false ∧
    if longestPath < (Utf8.encode p.text).length then e = .nameTooLong p.text
    else ∃ o, t.Obstructs o (t.start p) p.steps ∧ e = o.fault p.text

/-- A path has a fault exactly if it is blocked. -/
theorem locate_eq_error_iff : t.locate p = .error e ↔ t.Blocked p e := by
  unfold locate Blocked
  cases p.hasNull with
  | true => simp
  | false =>
    simp only [Bool.false_eq_true, if_false, true_and]
    split_ifs
    · simp [eq_comm]
    · simp only [← follow_eq_error_iff]
      rcases t.follow (t.start p) p.steps with o | target
      · simp [Except.mapError, eq_comm]
      · simp [Except.mapError]

/-- Whether there is a file at a path cannot be found out exactly where the path is blocked. -/
theorem isFile_eq_error_iff : t.isFile p = .error e ↔ t.Blocked p e := by
  rw [← locate_eq_error_iff, isFile]
  rcases t.locate p with e' | target
  · simp [bind, Except.bind]
  · cases target <;> simp [bind, Except.bind, pure, Except.pure]

/-- A name that is too long, behind open directories, blocks the path. -/
theorem blocked_of_long (hnull : p.hasNull = false) (hsteps : p.steps = before ++ name :: rest)
    (hopen : ∀ first later, before = first ++ later → t.IsOpen (Path.settle (t.start p) first))
    (hshort : ∀ part ∈ before, isLongName part = false) (hlong : isLongName name = true) :
    t.Blocked p (.nameTooLong p.text) := by
  refine ⟨hnull, ?_⟩
  split_ifs
  · rfl
  · refine ⟨.longName, ⟨before, name, rest, hsteps, fun first next later hbefore => ?_, ?_⟩, rfl⟩
    · exact ⟨hopen first (next :: later) hbefore, hshort next (hbefore ▸ by simp)⟩
    · exact ⟨hopen before [] (List.append_nil before).symm, hlong⟩

/-! ### Files -/

/-- There is a file where a path leads to one, readable or not. -/
theorem isFile_eq_true : t.isFile p = .ok true ↔
    ∃ bytes readable, t.locate p = .ok (.file bytes readable) := by
  rw [isFile]
  rcases t.locate p with e | target
  · simp [bind, Except.bind]
  · cases target <;> simp [bind, Except.bind, pure, Except.pure]

/-- The bytes of a file are given if it is readable. -/
theorem file?_eq_some :
    t.file? p = .ok (some bytes) ↔ t.locate p = .ok (.file bytes true) := by
  constructor
  · intro h
    obtain ⟨target, htarget, h⟩ := bind_eq_ok.mp h
    cases target with
    | nothing => cases h
    | directory place => cases h
    | file found readable =>
      cases readable with
      | true => rw [htarget, Option.some.inj (Except.ok.inj h)]
      | false => cases h
  · intro h
    rw [file?, h]
    rfl

theorem isFile_of_file? (h : t.file? p = .ok (some bytes)) : t.isFile p = .ok true :=
  isFile_eq_true.mpr ⟨bytes, true, file?_eq_some.mp h⟩

theorem hasNull_of_isFile (h : t.isFile p = .ok true) : p.hasNull = false := by
  obtain ⟨bytes, readable, hlocate⟩ := isFile_eq_true.mp h
  rw [locate] at hlocate
  split at hlocate
  · cases hlocate
  · next hnull => simpa using hnull

/-- A file that a path leads to stands where the path resolves to. -/
theorem target_of_locate (h : t.locate p = .ok (.file bytes readable)) :
    t.target (t.resolve p).parts = .file bytes readable := by
  rw [locate] at h
  split at h
  · cases h
  split at h
  · cases h
  rcases follow_eq_ok (mapError_eq_ok.mp h) with hnothing | htarget
  · cases hnothing
  · rw [htarget, Path.settle_steps]
    rfl

/-- Paths to files that resolve alike lead to the same bytes. -/
theorem file?_of_resolve_eq (hp : t.file? p = .ok (some bytes)) (hq : t.isFile q = .ok true)
    (h : t.resolve p = t.resolve q) : t.file? q = .ok (some bytes) := by
  obtain ⟨bytes', readable, hlocate⟩ := isFile_eq_true.mp hq
  have hsame := target_of_locate hlocate
  rw [← h, target_of_locate (file?_eq_some.mp hp)] at hsame
  obtain ⟨rfl, rfl⟩ := Target.file.inj hsame
  exact file?_eq_some.mpr hlocate

end FileTree

end TypeFacts
