import TypeFacts.Proofs.TypeText.Reading
import TypeFacts.TypeText.Qualify

/-!
# Where names end

Qualification goes over a text from left to right and replaces the names it meets. A stop is a
character that belongs to no name. What stands before it is qualified on its own, and what stands
behind it depends on no other character before (`qualifyAfter_append_stop`). A joint is a stop
behind which a name may begin, such as a bracket, a bar, a comma, a hyphen or a blank of ASCII;
behind a dollar sign no name begins. What stands before a joint and what stands behind it are
qualified apart (`qualifyAfter_append_joint`), so a text is qualified piece by piece. A row of name
characters is replaced as one name or stays as it is (`qualifyAfter_nameChars`).
-/

namespace TypeFacts.TypeText

/-- Does the character belong to no name? -/
def isStop (c : Char) : Bool :=
  !startsName c && !isNameChar c

/-- Does the character neither begin nor continue a name? -/
def isJoint (c : Char) : Bool :=
  !startsName c && !continuesName c

theorem isStop_iff {c : Char} :
    isStop c = true ↔ startsName c = false ∧ isNameChar c = false := by
  simp [isStop]

theorem isJoint_iff {c : Char} :
    isJoint c = true ↔ startsName c = false ∧ continuesName c = false := by
  simp [isJoint]

theorem continuesName_of_isNameChar {c : Char} (h : isNameChar c = true) :
    continuesName c = true := by
  simp [continuesName, h]

theorem isStop_of_isJoint {c : Char} (h : isJoint c = true) : isStop c = true := by
  obtain ⟨hstarts, hcontinues⟩ := isJoint_iff.mp h
  refine isStop_iff.mpr ⟨hstarts, Bool.eq_false_iff.mpr fun hname => ?_⟩
  rw [continuesName_of_isNameChar hname] at hcontinues
  cases hcontinues

theorem ne_backslash_of_startsName {c : Char} (h : startsName c = true) : c ≠ '\\' := by
  rintro rfl
  exact absurd h (by decide)

/-! ### The name in front of a text -/

/-- A name in front of a text begins with a character that begins names, behind a backslash or not,
and goes on as long as there are name characters. -/
theorem nameAhead?_eq_some {cs name rest : List Char} :
    nameAhead? cs = some (name, rest) ↔ ∃ slash c tail, (slash = [] ∨ slash = ['\\']) ∧
      startsName c = true ∧ cs = slash ++ c :: tail ∧
        name = slash ++ c :: tail.takeWhile isNameChar ∧
      rest = tail.dropWhile isNameChar := by
  constructor
  · intro h
    unfold nameAhead? at h
    split at h
    · next c tail =>
      split at h
      · next hc =>
        obtain ⟨rfl, rfl⟩ := Prod.mk.inj (Option.some.inj h)
        exact ⟨['\\'], c, tail, Or.inr rfl, hc, rfl, rfl, rfl⟩
      · cases h
    · next c tail _ =>
      split at h
      · next hc =>
        obtain ⟨rfl, rfl⟩ := Prod.mk.inj (Option.some.inj h)
        exact ⟨[], c, tail, Or.inl rfl, hc, rfl, rfl, rfl⟩
      · cases h
    · cases h
  · rintro ⟨slash, c, tail, rfl | rfl, hc, rfl, rfl, rfl⟩
    · have hne := ne_backslash_of_startsName hc
      rw [List.nil_append, List.nil_append, nameAhead?, if_pos hc]
      exact fun d ds heq => absurd heq hne
    · simp [nameAhead?, hc]

theorem append_of_nameAhead? {cs name rest : List Char} (h : nameAhead? cs = some (name, rest)) :
    name ++ rest = cs := by
  obtain ⟨slash, c, tail, -, -, rfl, rfl, rfl⟩ := nameAhead?_eq_some.mp h
  rw [List.append_assoc, List.cons_append, List.takeWhile_append_dropWhile]

theorem ne_nil_of_nameAhead? {cs name rest : List Char} (h : nameAhead? cs = some (name, rest)) :
    name ≠ [] := by
  obtain ⟨slash, c, tail, -, -, -, rfl, -⟩ := nameAhead?_eq_some.mp h
  simp

private theorem takeWhile_append_cons {p : Char → Bool} {d : Char} (hd : p d = false)
    (cs ds : List Char) : (cs ++ d :: ds).takeWhile p = cs.takeWhile p := by
  induction cs with
  | nil => simp [hd]
  | cons c cs ih => by_cases hc : p c = true <;> simp [hc, ih]

private theorem dropWhile_append_cons {p : Char → Bool} {d : Char} (hd : p d = false)
    (cs ds : List Char) : (cs ++ d :: ds).dropWhile p = cs.dropWhile p ++ d :: ds := by
  induction cs with
  | nil => simp [hd]
  | cons c cs ih => by_cases hc : p c = true <;> simp [hc, ih]

/-- A name in front ends where a stop follows. -/
theorem nameAhead?_append {cs name rest : List Char} {d : Char} (ds : List Char)
    (hd : isStop d = true) (h : nameAhead? cs = some (name, rest)) :
    nameAhead? (cs ++ d :: ds) = some (name, rest ++ d :: ds) := by
  have hname := (isStop_iff.mp hd).2
  obtain ⟨slash, c, tail, hslash, hc, rfl, rfl, rfl⟩ := nameAhead?_eq_some.mp h
  refine nameAhead?_eq_some.mpr ⟨slash, c, tail ++ d :: ds, hslash, hc, by simp, ?_, ?_⟩
  · rw [takeWhile_append_cons hname]
  · rw [dropWhile_append_cons hname]

/-- A stop behind a text makes no name in front of it. -/
theorem nameAhead?_append_eq_none {c d : Char} {cs : List Char} (ds : List Char)
    (hd : isStop d = true) (h : nameAhead? (c :: cs) = none) :
    nameAhead? (c :: cs ++ d :: ds) = none := by
  refine Option.eq_none_iff_forall_ne_some.mpr fun ⟨name, rest⟩ hsome => ?_
  obtain ⟨slash, e, tail, hslash, he, heq, -, -⟩ := nameAhead?_eq_some.mp hsome
  have hde : e ≠ d := by
    rintro rfl
    rw [(isStop_iff.mp hd).1] at he
    cases he
  -- the character that begins the name stands before the stop
  have hbefore : ∃ tail', c :: cs = slash ++ e :: tail' := by
    rcases hslash with rfl | rfl
    · exact ⟨cs, by rw [(List.cons.inj heq).1]; rfl⟩
    · obtain ⟨rfl, htail⟩ := List.cons.inj heq
      cases cs with
      | nil => exact absurd (List.cons.inj htail).1.symm hde
      | cons c' cs' =>
        obtain ⟨rfl, -⟩ := List.cons.inj htail
        exact ⟨cs', rfl⟩
  obtain ⟨tail', hcs⟩ := hbefore
  have hfound : nameAhead? (c :: cs) = some (slash ++ e :: tail'.takeWhile isNameChar, _) :=
    nameAhead?_eq_some.mpr ⟨slash, e, tail', hslash, he, hcs, rfl, rfl⟩
  rw [h] at hfound
  cases hfound

/-! ### Texts around a stop -/

section Qualify

variable (resolve : String → String)

/-- What stands before a text counts only as far as it continues a name. -/
theorem qualifyAfter_congr {b b' : Option Char} (h : b.any continuesName = b'.any continuesName)
    (cs : List Char) : qualifyAfter resolve b cs = qualifyAfter resolve b' cs := by
  cases cs with
  | nil => rw [qualifyAfter, qualifyAfter]
  | cons c cs => rw [qualifyAfter, qualifyAfter, h]

theorem qualifyAfter_nil (b : Option Char) : qualifyAfter resolve b [] = [] := by
  rw [qualifyAfter]

/-- A stop stays, whatever stands before it. -/
theorem qualifyAfter_stop {d : Char} (hd : isStop d = true) (b : Option Char) (ds : List Char) :
    qualifyAfter resolve b (d :: ds) = d :: qualifyAfter resolve (some d) ds := by
  obtain ⟨hstarts, hname⟩ := isStop_iff.mp hd
  have hnone : nameAhead? (d :: ds) = none := by
    refine Option.eq_none_iff_forall_ne_some.mpr fun ⟨name, rest⟩ hsome => ?_
    obtain ⟨slash, e, tail, rfl | rfl, he, heq, -, -⟩ := nameAhead?_eq_some.mp hsome
    · rw [(List.cons.inj heq).1, he] at hstarts
      cases hstarts
    · rw [(List.cons.inj heq).1] at hname
      exact absurd hname (by decide)
  rw [qualifyAfter]
  split
  · rfl
  · split
    · next heq =>
      rw [hnone] at heq
      cases heq
    · rfl

/-- What stands before a stop is qualified on its own, and what stands behind it as if it followed
the stop alone. -/
theorem qualifyAfter_append_stop {d : Char} (hd : isStop d = true) (b : Option Char)
    (cs ds : List Char) : qualifyAfter resolve b (cs ++ d :: ds)
      = qualifyAfter resolve b cs ++ d :: qualifyAfter resolve (some d) ds := by
  -- the induction follows qualification, name by name
  fun_induction qualifyAfter resolve b cs with
  | case1 b => exact qualifyAfter_stop resolve hd b ds
  | case2 b c rest hb ih =>
    rw [List.cons_append, qualifyAfter, if_pos hb, ih, List.cons_append]
  | case3 b c rest hb name after hname ih =>
    rw [List.cons_append, qualifyAfter, if_neg hb]
    have happend := nameAhead?_append ds hd hname
    split
    · next heq =>
      rw [← List.cons_append, happend] at heq
      obtain ⟨rfl, rfl⟩ := Prod.mk.inj (Option.some.inj heq)
      rw [ih, List.append_assoc]
    · next heq =>
      rw [← List.cons_append, happend] at heq
      cases heq
  | case4 b c rest hb hname ih =>
    rw [List.cons_append, qualifyAfter, if_neg hb]
    have happend := nameAhead?_append_eq_none ds hd hname
    split
    · next heq =>
      rw [← List.cons_append, happend] at heq
      cases heq
    · rw [ih, List.cons_append]

/-- Behind a joint a text is qualified on its own. -/
theorem qualifyAfter_some_joint {d : Char} (hd : isJoint d = true) (ds : List Char) :
    qualifyAfter resolve (some d) ds = qualifyAfter resolve none ds :=
  qualifyAfter_congr resolve (by simp [(isJoint_iff.mp hd).2]) ds

/-- A joint stays, and what stands behind it is qualified on its own. -/
theorem qualifyAfter_joint {d : Char} (hd : isJoint d = true) (b : Option Char) (ds : List Char) :
    qualifyAfter resolve b (d :: ds) = d :: qualifyAfter resolve none ds := by
  rw [qualifyAfter_stop resolve (isStop_of_isJoint hd), qualifyAfter_some_joint resolve hd]

/-- What stands before a joint and what stands behind it are qualified apart. -/
theorem qualifyAfter_append_joint {d : Char} (hd : isJoint d = true) (b : Option Char)
    (cs ds : List Char) : qualifyAfter resolve b (cs ++ d :: ds)
      = qualifyAfter resolve b cs ++ d :: qualifyAfter resolve none ds := by
  rw [qualifyAfter_append_stop resolve (isStop_of_isJoint hd), qualifyAfter_some_joint resolve hd]

/-- Texts with a joint between them are qualified one by one. -/
theorem qualifyAfter_intercalate {d : Char} (hd : isJoint d = true) (texts : List (List Char)) :
    qualifyAfter resolve none ([d].intercalate texts)
      = [d].intercalate (texts.map (qualifyAfter resolve none)) := by
  induction texts with
  | nil => exact qualifyAfter_nil resolve none
  | cons text texts ih =>
    cases texts with
    | nil => simp [List.intercalate_singleton]
    | cons next texts =>
      rw [List.intercalate_cons_cons, List.append_assoc, List.singleton_append,
        qualifyAfter_append_joint resolve hd, ih]
      simp [List.intercalate_cons_cons]

/-! ### Rows of name characters -/

/-- Behind a character that continues a name, name characters stay. -/
theorem qualifyAfter_of_continues {b : Option Char} (hb : b.any continuesName = true)
    {cs : List Char} (h : ∀ c ∈ cs, isNameChar c = true) : qualifyAfter resolve b cs = cs := by
  induction cs generalizing b with
  | nil => exact qualifyAfter_nil resolve b
  | cons c cs ih =>
    have hc : (some c).any continuesName = true :=
      continuesName_of_isNameChar (h c List.mem_cons_self)
    rw [qualifyAfter, if_pos hb, ih hc fun d hd => h d (List.mem_cons_of_mem c hd)]

/-- A row of name characters is one name if its first character begins names, and otherwise
it stays. -/
theorem qualifyAfter_nameChars {cs : List Char} (h : ∀ c ∈ cs, isNameChar c = true) :
    qualifyAfter resolve none cs =
      if cs.head?.any startsName then qualifyName resolve cs else cs := by
  cases cs with
  | nil => exact qualifyAfter_nil resolve none
  | cons c cs =>
    have hcs : ∀ d ∈ cs, isNameChar d = true := fun d hd => h d (List.mem_cons_of_mem c hd)
    have hc : (some c).any continuesName = true :=
      continuesName_of_isNameChar (h c List.mem_cons_self)
    have htake : ∀ tail : List Char, (∀ d ∈ tail, isNameChar d = true) →
        tail.takeWhile isNameChar = tail ∧ tail.dropWhile isNameChar = [] := fun tail htail =>
      ⟨List.takeWhile_eq_self_iff.mpr htail, List.dropWhile_eq_nil_iff.mpr htail⟩
    rw [qualifyAfter, if_neg (by simp)]
    split
    · next name after hname =>
      obtain ⟨slash, e, tail, hslash, he, hcons, hnameEq, hafter⟩ := nameAhead?_eq_some.mp hname
      have htail : ∀ d ∈ tail, isNameChar d = true := fun d hd =>
        h d (by rw [hcons]; exact List.mem_append_right _ (List.mem_cons_of_mem e hd))
      rw [(htake tail htail).1, ← hcons] at hnameEq
      rw [(htake tail htail).2] at hafter
      rw [hnameEq, hafter, qualifyAfter_nil, List.append_nil]
      rcases hslash with rfl | rfl
      · have hce : c = e := (List.cons.inj hcons).1
        rw [if_pos (by simpa [hce] using he)]
      · -- a name with a backslash in front stays
        have hslash : c = '\\' := (List.cons.inj hcons).1
        have hstarts : startsName '\\' = false := by decide
        simp [hslash, hstarts, qualifyName]
    · next hnone =>
      rw [qualifyAfter_of_continues resolve hc hcs, if_neg]
      intro hstarts
      have hfound : nameAhead? (c :: cs) = some (c :: cs.takeWhile isNameChar, _) :=
        nameAhead?_eq_some.mpr ⟨[], c, cs, Or.inl rfl, by simpa using hstarts, rfl, rfl, rfl⟩
      rw [hnone] at hfound
      cases hfound

/-- The words of the grammar stay. -/
theorem qualifyAfter_of_isReserved {cs : List Char} (h : isReserved (String.ofList cs) = true) :
    qualifyAfter resolve none cs = cs := by
  rw [qualifyAfter_nameChars resolve (nameChars_of_isReserved h).2]
  split
  · simp [qualifyName, h]
  · rfl

end Qualify

end TypeFacts.TypeText
