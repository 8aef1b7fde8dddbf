import TypeFacts.Doc.TypeToken
import TypeFacts.Proofs.TypeText.Splitting

/-!
# Where a type ends

A type in front of a content ends at a blank outside of all brackets, if no bar stands beside it
(`Ends`). The search for the end passes over a text in which no type ends
(`NoEnd.findTypeEnd_append`) and stops at the first end (`findTypeEnd_of_ends`), so a content is all
type or it is cut at the first end in it (`splitTypeChars_cases`).

Whether a type ends at a blank is decided by the brackets before it and by the nearest characters on
either side that are no blanks. Plain spaces are none of these, so dropping them makes no new end
(`NoEnd.withoutSpaces`). What splitting leaves behind is therefore split in the same way again
(`Settled`), and nothing but blanks is lost (`splitTypeToken_stable`).
-/

namespace TypeFacts.Doc

open Text (Blank isBlank trim trimLeft trimRight withoutBlanks)
open TypeText (depthAfter depthBehind)

/-! ### Where a type ends -/

/-- The first character that is no blank. -/
def firstMark (cs : List Char) : Option Char :=
  cs.find? fun c => !isBlank c

/-- The last character that is no blank. -/
def lastMark (cs : List Char) : Option Char :=
  firstMark cs.reverse

/-- A type ends between two parts of a text: the second part begins with a blank, no bracket is open
in front of it, and no bar stands beside it. -/
structure Ends (token rest : List Char) : Prop where
  blank : ∃ c ∈ rest.head?, isBlank c = true
  closed : depthBehind 0 token = 0
  before : lastMark token ≠ some '|'
  behind : firstMark rest ≠ some '|'

/-- No blank in a text ends the type, if the other text stands behind it. -/
def NoEnd (cs rest : List Char) : Prop :=
  ∀ p q, p ++ q = cs → q ≠ [] → ¬ Ends p (q ++ rest)

section Scanning

variable {a b cs rest : List Char} {c : Char}

/-- The first mark is what a text begins with once it is trimmed. -/
theorem firstMark_eq (cs : List Char) : firstMark cs = (trimLeft cs).head? :=
  List.find?_not_eq_head?_dropWhile isBlank cs

/-- The first mark of a text is in its first part, if there is one. -/
theorem firstMark_append (cs ds : List Char) :
    firstMark (cs ++ ds) = (firstMark cs).or (firstMark ds) :=
  List.find?_append

/-- Blanks in front have no mark. -/
theorem firstMark_blank_append (ha : Blank a) (cs : List Char) :
    firstMark (a ++ cs) = firstMark cs := by
  rw [firstMark_eq, Text.trimLeft_append_of_blank ha, ← firstMark_eq]

theorem lastMark_append_blank (ha : Blank a) (cs : List Char) :
    lastMark (cs ++ a) = lastMark cs := by
  have hrev : Blank a.reverse := fun c hc => ha c (List.mem_reverse.mp hc)
  rw [lastMark, List.reverse_append, firstMark_blank_append hrev, lastMark]

/-- The search goes on behind a character at which no type ends. -/
theorem findTypeEnd_cons_of_not_ends (h : ¬ Ends a (c :: cs)) :
    findTypeEnd a.reverse (depthBehind 0 a) (c :: cs)
      = findTypeEnd (a ++ [c]).reverse (depthBehind 0 (a ++ [c])) cs := by
  have hbefore : (a ++ [c]).reverse = c :: a.reverse := by simp
  have hdepth : depthBehind 0 (a ++ [c]) = depthAfter (depthBehind 0 a) c := by
    rw [TypeText.depthBehind_append]
    rfl
  rw [hbefore, hdepth]
  by_cases hstop : isBlank c = true ∧ depthBehind 0 a = 0
  · -- here only a bar beside the blank keeps the type from ending
    obtain ⟨hblank, hzero⟩ := hstop
    have hbar : (trimLeft a.reverse).head? = some '|' ∨ (trimLeft (c :: cs)).head? = some '|' := by
      by_contra hno
      rw [← firstMark_eq, ← firstMark_eq, not_or] at hno
      exact h ⟨⟨c, rfl, hblank⟩, hzero, hno.1, hno.2⟩
    rw [findTypeEnd, TypeText.not_isOpener_of_isBlank hblank,
      TypeText.not_isCloser_of_isBlank hblank,
      hblank, hzero, TypeText.depthAfter_of_isBlank hblank, ← trimLeft]
    simp [hbar]
  · have hgo : (isBlank c && depthBehind 0 a == 0) = false := by simpa using hstop
    rw [findTypeEnd, hgo, if_neg Bool.false_ne_true, depthAfter]
    split_ifs <;> rfl

/-- The search stops where a type ends. -/
theorem findTypeEnd_of_ends (h : Ends a rest) : findTypeEnd a.reverse (depthBehind 0 a) rest
    = some (withoutSpaces (trimRight a), trimLeft rest) := by
  obtain ⟨c, hhead, hblank⟩ := h.blank
  cases rest with
  | nil => cases hhead
  | cons d cs =>
    obtain rfl : d = c := Option.some.inj hhead
    have hright : trimRight a = (trimLeft a.reverse).reverse := rfl
    have hbefore := h.before
    have hbehind := h.behind
    rw [lastMark, firstMark_eq] at hbefore
    rw [firstMark_eq] at hbehind
    rw [findTypeEnd, TypeText.not_isOpener_of_isBlank hblank,
      TypeText.not_isCloser_of_isBlank hblank,
      hblank, h.closed, ← trimLeft]
    simp [hbefore, hbehind, hright]

/-- A text in which no type ends is passed over. -/
theorem NoEnd.findTypeEnd_append (h : NoEnd cs rest) :
    findTypeEnd [] 0 (cs ++ rest) = findTypeEnd cs.reverse (depthBehind 0 cs) rest := by
  -- the induction moves characters from behind to the front one by one
  have hpass : ∀ u v, u ++ v = cs → findTypeEnd u.reverse (depthBehind 0 u) (v ++ rest)
      = findTypeEnd cs.reverse (depthBehind 0 cs) rest := by
    intro u v
    induction v generalizing u with
    | nil =>
      intro hu
      rw [List.append_nil] at hu
      rw [hu, List.nil_append]
    | cons c v ih =>
      intro hu
      have hno : ¬ Ends u (c :: (v ++ rest)) := h u (c :: v) hu (List.cons_ne_nil c v)
      rw [List.cons_append, findTypeEnd_cons_of_not_ends hno]
      exact ih (u ++ [c]) (by rw [List.append_assoc, List.singleton_append, hu])
  exact hpass [] cs rfl

/-- Where no blank ends the type no end is found. -/
theorem NoEnd.findTypeEnd_eq_none (h : NoEnd cs []) : findTypeEnd [] 0 cs = none := by
  have hpass := h.findTypeEnd_append
  rwa [List.append_nil] at hpass

/-- Of what stands behind a text only the first character counts that is no blank. -/
theorem NoEnd.congr {rest' : List Char} (h : NoEnd cs rest)
    (hrest : firstMark rest' = firstMark rest) :
    NoEnd cs rest' := by
  intro p q hpq hne hends
  refine h p q hpq hne ⟨?_, hends.closed, hends.before, ?_⟩
  · have hblank := hends.blank
    rw [List.head?_append_of_ne_nil q hne] at hblank ⊢
    exact hblank
  · rw [firstMark_append, ← hrest, ← firstMark_append]
    exact hends.behind

/-- A text has no end of a type in it, or a first one. -/
theorem noEnd_or_exists_first (cs : List Char) :
    NoEnd cs [] ∨ ∃ a b, cs = a ++ b ∧ Ends a b ∧ NoEnd a b := by
  classical
  by_cases h : ∃ n, Ends (cs.take n) (cs.drop n)
  · refine .inr ⟨_, _, (List.take_append_drop (Nat.find h) cs).symm, Nat.find_spec h, ?_⟩
    rintro p q hpq hne hends
    have hcs : p ++ (q ++ cs.drop (Nat.find h)) = cs := by
      rw [← List.append_assoc, hpq, List.take_append_drop]
    have hlt : p.length < Nat.find h := by
      have hlength := congrArg List.length hpq
      have := List.length_pos_iff.mpr hne
      rw [List.length_append, List.length_take] at hlength
      omega
    have htake := congrArg (List.take p.length) hcs
    have hdrop := congrArg (List.drop p.length) hcs
    rw [List.take_left] at htake
    rw [List.drop_left] at hdrop
    exact Nat.find_min h hlt (htake ▸ hdrop ▸ hends)
  · refine .inl fun p q hpq hne hends => h ⟨p.length, ?_⟩
    rw [List.append_nil] at hends
    rwa [← hpq, List.take_left, List.drop_left]

end Scanning

/-! ### Plain spaces -/

section Spaces

variable {a b cs rest rest' : List Char}

/-- A character that is no blank is no space. -/
theorem ne_space_of_not_isBlank {c : Char} (h : isBlank c = false) : (c != ' ') = true := by
  refine bne_iff_ne.mpr ?_
  rintro rfl
  exact absurd h (by decide)

@[simp] theorem withoutSpaces_append (cs ds : List Char) :
    withoutSpaces (cs ++ ds) = withoutSpaces cs ++ withoutSpaces ds :=
  List.filter_append cs ds

@[simp] theorem withoutSpaces_withoutSpaces (cs : List Char) :
    withoutSpaces (withoutSpaces cs) = withoutSpaces cs := by
  simp [withoutSpaces]

theorem withoutSpaces_reverse (cs : List Char) :
    withoutSpaces cs.reverse = (withoutSpaces cs).reverse :=
  List.filter_reverse

@[simp] theorem withoutBlanks_withoutSpaces (cs : List Char) :
    withoutBlanks (withoutSpaces cs) = withoutBlanks cs := by
  rw [withoutBlanks, withoutSpaces, List.filter_filter, withoutBlanks]
  refine List.filter_congr fun c _ => ?_
  cases hc : isBlank c with
  | true => rfl
  | false => exact ne_space_of_not_isBlank hc

@[simp] theorem firstMark_withoutSpaces (cs : List Char) :
    firstMark (withoutSpaces cs) = firstMark cs := by
  rw [firstMark, withoutSpaces, List.find?_filter, firstMark]
  congr 1
  funext c
  cases hc : isBlank c with
  | true => simp
  | false => simpa using ne_space_of_not_isBlank hc

@[simp] theorem lastMark_withoutSpaces (cs : List Char) :
    lastMark (withoutSpaces cs) = lastMark cs := by
  rw [lastMark, ← withoutSpaces_reverse]
  exact firstMark_withoutSpaces cs.reverse

@[simp] theorem depthBehind_withoutSpaces (d : Nat) (cs : List Char) :
    depthBehind d (withoutSpaces cs) = depthBehind d cs := by
  induction cs generalizing d with
  | nil => rfl
  | cons c cs ih =>
    rw [withoutSpaces, List.filter_cons]
    split_ifs with hc
    · exact ih (depthAfter d c)
    · obtain rfl : c = ' ' := by simpa using hc
      exact ih d

/-- A text without blanks at its ends has none there when its spaces are dropped. -/
theorem head?_withoutSpaces (h : ∀ c ∈ cs.head?, isBlank c = false) :
    (withoutSpaces cs).head? = cs.head? := by
  cases cs with
  | nil => rfl
  | cons c cs =>
    have hc : (c != ' ') = true := ne_space_of_not_isBlank (h c rfl)
    rw [withoutSpaces, List.filter_cons, if_pos hc, List.head?_cons, List.head?_cons]

/-- A last character that is no blank stays the last one. -/
theorem getLast?_withoutSpaces (h : ∀ c ∈ cs.getLast?, isBlank c = false) :
    (withoutSpaces cs).getLast? = cs.getLast? := by
  rw [← List.head?_reverse, ← withoutSpaces_reverse, head?_withoutSpaces, List.head?_reverse]
  rwa [List.head?_reverse]

/-- Dropping spaces makes no new end of a type: what decides on it are brackets, bars and the blanks
that are left. -/
theorem NoEnd.withoutSpaces (h : NoEnd cs rest) : NoEnd (withoutSpaces cs) rest := by
  intro p q hpq hne hends
  obtain ⟨c, q, rfl⟩ := List.exists_cons_of_ne_nil hne
  -- where the shorter text is cut, the text itself is cut in front of the same blank
  obtain ⟨u, v, rfl, rfl, hv⟩ := List.filter_eq_append_iff.mp hpq.symm
  obtain ⟨spaces, w, rfl, hspaces, hc, rfl⟩ := List.filter_eq_cons_iff.mp hv
  have hu : Doc.withoutSpaces (u ++ spaces) = Doc.withoutSpaces u := by
    have hnil : Doc.withoutSpaces spaces = [] := List.filter_eq_nil_iff.mpr hspaces
    rw [withoutSpaces_append, hnil, List.append_nil]
  have hw : Doc.withoutSpaces (c :: w) = c :: Doc.withoutSpaces w := by
    rw [Doc.withoutSpaces, List.filter_cons, if_pos hc]
    rfl
  have hmark : firstMark (c :: w ++ rest) = firstMark (c :: Doc.withoutSpaces w ++ rest) := by
    rw [firstMark_append, firstMark_append, ← hw, firstMark_withoutSpaces]
  refine h (u ++ spaces) (c :: w) (by simp) (List.cons_ne_nil c w) ⟨hends.blank, ?_, ?_, ?_⟩
  · rw [← depthBehind_withoutSpaces, hu]
    exact hends.closed
  · rw [← lastMark_withoutSpaces, hu]
    exact hends.before
  · rw [hmark]
    exact hends.behind

end Spaces

/-! ### Splitting off a type -/

section Splitting

variable {a b cs content : List Char}

/-- In front of the first end of a type there is no blank. -/
theorem trimRight_of_first (hends : Ends a b) (h : NoEnd a b) : trimRight a = a := by
  obtain ⟨blanks, hblanks, ha⟩ := Text.exists_eq_trimRight_append a
  generalize trimRight a = p at ha ⊢
  subst ha
  by_contra hne
  have hnil : blanks ≠ [] := fun hnil => hne (by rw [hnil, List.append_nil])
  -- the type would end in front of these blanks already
  refine h p blanks rfl hnil ⟨?_, ?_, ?_, ?_⟩
  · obtain ⟨c, rest, rfl⟩ := List.exists_cons_of_ne_nil hnil
    exact ⟨c, rfl, hblanks c List.mem_cons_self⟩
  · have hclosed := hends.closed
    rwa [TypeText.depthBehind_append, TypeText.depthBehind_of_blank hblanks] at hclosed
  · rw [← lastMark_append_blank hblanks]
    exact hends.before
  · rw [firstMark_blank_append hblanks]
    exact hends.behind

/-- What is split off a text: all of it if no type ends in it, or what stands in front of the
first end. -/
theorem splitTypeChars_cases (content : List Char) :
    NoEnd (trim content) [] ∧ splitTypeChars content =
        (if (trim content).contains '|' then withoutSpaces (trim content) else trim content, []) ∨
    ∃ a b, trim content = a ++ b ∧ Ends a b ∧ NoEnd a b ∧
      splitTypeChars content = (withoutSpaces a, trimLeft b) := by
  rcases noEnd_or_exists_first (trim content) with h | ⟨a, b, heq, hends, h⟩
  · refine .inl ⟨h, ?_⟩
    rw [splitTypeChars, h.findTypeEnd_eq_none]
  · refine .inr ⟨a, b, heq, hends, h, ?_⟩
    rw [splitTypeChars, heq, h.findTypeEnd_append, findTypeEnd_of_ends hends,
      trimRight_of_first hends h]

/-- Of a trimmed text both parts around the first end are trimmed and not empty. -/
theorem parts_of_first (htrim : trim (a ++ b) = a ++ b) (hends : Ends a b) (h : NoEnd a b) :
    (trim a = a ∧ a ≠ []) ∧ trim (trimLeft b) = trimLeft b ∧ trimLeft b ≠ [] := by
  obtain ⟨hfirst, hlast⟩ := Text.ends_of_trim htrim
  obtain ⟨c, hc, hblank⟩ := hends.blank
  have ha : a ≠ [] := by
    rintro rfl
    rw [hfirst c hc] at hblank
    cases hblank
  have hb : b ≠ [] := by
    rintro rfl
    cases hc
  rw [List.head?_append_of_ne_nil a ha] at hfirst
  rw [List.getLast?_append_of_ne_nil a hb] at hlast
  have hleft : trimLeft b = trim b := by
    rw [Text.trim_eq_trimLeft_trimRight, Text.trimRight_eq_self hlast]
  refine ⟨⟨?_, ha⟩, ?_, fun hnil => ?_⟩
  · rw [trim, Text.trimLeft_eq_self hfirst, trimRight_of_first hends h]
  · rw [hleft, Text.trim_trim]
  · obtain ⟨blanks, hblanks, heq⟩ := Text.exists_eq_append_trimLeft b
    rw [hnil, List.append_nil] at heq
    subst heq
    have hbad := hlast _ (List.getLast?_eq_some_getLast hb)
    rw [hblanks _ (List.getLast_mem hb)] at hbad
    cases hbad

/-- A trimmed text stays trimmed without its spaces. -/
theorem trim_withoutSpaces (h : trim cs = cs) : trim (withoutSpaces cs) = withoutSpaces cs := by
  obtain ⟨hfirst, hlast⟩ := Text.ends_of_trim h
  refine Text.trim_eq_self ?_ ?_
  · rwa [head?_withoutSpaces hfirst]
  · rwa [getLast?_withoutSpaces hlast]

/-- What splitting leaves behind: a text that is all type, or a type and the text behind it. -/
inductive Settled : List Char → List Char → Prop
  | whole {cs : List Char} : trim cs = cs → NoEnd cs [] → ('|' ∈ cs → withoutSpaces cs = cs) →
      Settled cs []
  | cut {a b : List Char} : trim a = a → a ≠ [] → withoutSpaces a = a → trim b = b → b ≠ [] →
      Ends a (' ' :: b) → NoEnd a (' ' :: b) → Settled a b

theorem firstMark_space (cs : List Char) : firstMark (' ' :: cs) = firstMark cs :=
  firstMark_blank_append (a := [' ']) (by decide) cs

/-- What was split off stays as it is if it is split again. -/
theorem settled_splitTypeChars (content : List Char) :
    Settled (splitTypeChars content).1 (splitTypeChars content).2 := by
  rcases splitTypeChars_cases content with ⟨h, hsplit⟩ | ⟨a, b, htext, hends, h, hsplit⟩
  · rw [hsplit]
    have htrim := Text.trim_trim content
    dsimp only
    split_ifs with hbar
    · exact .whole (trim_withoutSpaces htrim) h.withoutSpaces fun _ => withoutSpaces_withoutSpaces _
    · exact .whole htrim h fun hmem => absurd (List.contains_iff_mem.mpr hmem) hbar
  · have htrim := Text.trim_trim content
    rw [htext] at htrim
    obtain ⟨⟨ha, hane⟩, hb, hbne⟩ := parts_of_first htrim hends h
    have hmark : firstMark (' ' :: trimLeft b) = firstMark b := by
      rw [firstMark_space, firstMark_eq, firstMark_eq,
        Text.trimLeft_eq_self (Text.ends_of_trim hb).1]
    have hne : withoutSpaces a ≠ [] := fun hnil => by
      have hhead := head?_withoutSpaces (Text.ends_of_trim ha).1
      rw [hnil] at hhead
      exact hane (List.head?_eq_none_iff.mp hhead.symm)
    rw [hsplit]
    refine .cut (trim_withoutSpaces ha) hne (withoutSpaces_withoutSpaces a) hb hbne ?_
      (h.withoutSpaces.congr hmark)
    refine ⟨⟨' ', rfl, by decide⟩, ?_, ?_, ?_⟩
    · rw [depthBehind_withoutSpaces]
      exact hends.closed
    · rw [lastMark_withoutSpaces]
      exact hends.before
    · rw [hmark]
      exact hends.behind

/-- What was split once is split in the same way again. -/
theorem Settled.splitTypeChars_eq (h : Settled a b) : splitTypeChars (a ++ ' ' :: b) = (a, b) := by
  have hspace : Blank [' '] := by decide
  cases h with
  | whole htrim h hspaces =>
    have htext : trim (a ++ [' ']) = a := by rw [Text.trim_append_blank hspace, htrim]
    rw [splitTypeChars, htext, h.findTypeEnd_eq_none]
    split_ifs with hbar
    · rw [hspaces (List.contains_iff_mem.mp hbar)]
    · rfl
  | cut ha hane hspaces hb hbne hends h =>
    have hleft : trimLeft (' ' :: b) = b :=
      (Text.trimLeft_append_of_blank hspace b).trans
      (Text.trimLeft_eq_self (Text.ends_of_trim hb).1)
    rw [splitTypeChars, Text.trim_append_cons ha hane hb hbne, h.findTypeEnd_append,
      findTypeEnd_of_ends hends, trimRight_of_first hends h, hleft, hspaces]

/-- Inside of a settled type no blank ends the type, with the rest behind it. -/
theorem Settled.noEnd (h : Settled a b) : NoEnd a (' ' :: b) := by
  cases h with
  | whole _ h _ => exact h.congr (firstMark_space [])
  | cut _ _ _ _ _ _ h => exact h

/-- Splitting loses nothing but blanks. -/
theorem withoutBlanks_splitTypeChars (content : List Char) :
    withoutBlanks ((splitTypeChars content).1 ++ (splitTypeChars content).2)
      = withoutBlanks content := by
  rcases splitTypeChars_cases content with ⟨-, hsplit⟩ | ⟨a, b, htext, -, -, hsplit⟩
  · rw [hsplit]
    dsimp only
    split_ifs
    · rw [List.append_nil, withoutBlanks_withoutSpaces, Text.withoutBlanks_trim]
    · rw [List.append_nil, Text.withoutBlanks_trim]
  · rw [hsplit, ← Text.withoutBlanks_trim content, htext, Text.withoutBlanks_append,
      Text.withoutBlanks_append, withoutBlanks_withoutSpaces, Text.withoutBlanks_trimLeft]

/-- All of a text is type exactly if no type ends in it. -/
theorem rest_eq_nil_iff (content : List Char) :
    (splitTypeChars content).2 = [] ↔ NoEnd (trim content) [] := by
  rcases splitTypeChars_cases content with ⟨h, hsplit⟩ | ⟨a, b, htext, hends, h, hsplit⟩
  · rw [hsplit]
    exact iff_of_true rfl h
  · have htrim := Text.trim_trim content
    rw [htext] at htrim
    obtain ⟨-, -, hne⟩ := parts_of_first htrim hends h
    rw [hsplit]
    refine iff_of_false hne fun hno => ?_
    rw [htext] at hno
    have hb : b ≠ [] := fun hnil => hne (by rw [hnil]; rfl)
    refine hno a b rfl hb ?_
    rwa [List.append_nil]

end Splitting

/-- A type is split off from a text as it is from its characters. -/
theorem splitTypeToken_eq_iff {content token rest : String} :
    splitTypeToken content = (token, rest) ↔
    splitTypeChars content.toList = (token.toList, rest.toList) := by
  rcases h : splitTypeChars content.toList with ⟨a, b⟩
  rw [splitTypeToken, h]
  simp [← String.toList_inj]

/-- Splitting a type off a content loses nothing but blanks, and what was split is split in the same
way again. No blank in the type ends it, and the whole content is taken for the type only if no
blank in it ends a type. -/
theorem splitTypeToken_stable (content : String) :
    withoutBlanks ((splitTypeToken content).1 ++ (splitTypeToken content).2).toList
      = withoutBlanks content.toList ∧
    splitTypeToken ((splitTypeToken content).1 ++ " " ++ (splitTypeToken content).2)
      = splitTypeToken content ∧
    NoEnd (splitTypeToken content).1.toList (' ' :: (splitTypeToken content).2.toList) ∧
    ((splitTypeToken content).2 = "" ↔ NoEnd (trim content.toList) []) := by
  have hsettled := settled_splitTypeChars content.toList
  have hblanks := withoutBlanks_splitTypeChars content.toList
  have hrest := rest_eq_nil_iff content.toList
  obtain ⟨⟨token, rest⟩, hsplit⟩ : ∃ parts, splitTypeToken content = parts := ⟨_, rfl⟩
  rw [splitTypeToken_eq_iff.mp hsplit] at hsettled hblanks hrest
  rw [hsplit]
  refine ⟨?_, ?_, hsettled.noEnd, ?_⟩
  · rw [String.toList_append]
    exact hblanks
  · have htext : (token ++ " " ++ rest).toList = token.toList ++ ' ' :: rest.toList := by simp
    rw [splitTypeToken_eq_iff, htext]
    exact hsettled.splitTypeChars_eq
  · rw [← String.toList_eq_nil_iff]
    exact hrest

example : splitTypeToken " array<int, string> |\tnull  $x a list "
    = ("array<int,string>|\tnull", "$x a list") := by
  decide

end TypeFacts.Doc
