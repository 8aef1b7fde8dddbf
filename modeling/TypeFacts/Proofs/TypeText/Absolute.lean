import TypeFacts.Proofs.TypeText.Resolution

/-!
# Qualified texts mean the same in every file

A qualified text is not changed by qualifying it again, in the same scope or in any other
(`qualify_qualify`): the names that are met in it are words of the grammar or begin with a
backslash.

A text is a chain of rows of name characters with stops between them. A row is replaced by a row or
stays, so the second pass meets the same stops, and it finds nothing to replace in a row that the
first pass has left (`qualifyAfter_row_twice`). The texts are those in which a character that begins
names also continues them. Every ASCII text is one; beyond ASCII a name may begin with a symbol such
as `×`, which ends the name before it.
-/

namespace TypeFacts.TypeText

section Twice

variable {resolve further : String → String} {b : Option Char}

/-- A row of name characters that begins as names do is a path. -/
theorem isPath_of_startsName {row : List Char} (hrow : ∀ c ∈ row, isNameChar c = true)
    (hstart : row.head?.any startsName = true) : IsPath (String.ofList row) := by
  cases row with
  | nil => cases hstart
  | cons c row =>
    have hc : startsName c = true := by simpa using hstart
    refine ⟨by simpa using hrow, by simp [String.ext_iff], ?_⟩
    simpa using ne_backslash_of_startsName hc

/-- A row of name characters that was qualified once stays. -/
theorem qualifyAfter_row_twice
    (hresolve : ∀ name, IsPath name → ∀ c ∈ (resolve name).toList, isNameChar c = true)
    {row : List Char} (hrow : ∀ c ∈ row, isNameChar c = true) :
    qualifyAfter further b (qualifyAfter resolve b row) = qualifyAfter resolve b row := by
  by_cases hb : b.any continuesName = true
  · rw [qualifyAfter_of_continues resolve hb hrow, qualifyAfter_of_continues further hb hrow]
  have hnone : ∀ (f : String → String) (cs : List Char),
      qualifyAfter f b cs = qualifyAfter f none cs := fun f cs =>
    qualifyAfter_congr f (by simpa using hb) cs
  rw [hnone, hnone, qualifyAfter_nameChars resolve hrow]
  split
  · next hstart =>
    by_cases hreserved : isReserved (String.ofList row) = true
    · have hkeep : qualifyName resolve row = row := by simp [qualifyName, hreserved]
      rw [hkeep, qualifyAfter_of_isReserved further hreserved]
    · have hpath := isPath_of_startsName hrow hstart
      have hslash : (row.head? == some '\\') = false := by simpa using hpath.plain
      have hname : qualifyName resolve row
          = '\\' :: Text.dropBackslashes (resolve (String.ofList row)).toList := by
        simp [qualifyName, hreserved, hslash]
      have hchars : ∀ c ∈ '\\' :: Text.dropBackslashes (resolve (String.ofList row)).toList,
          isNameChar c = true := by
        refine List.forall_mem_cons.mpr ⟨by decide, fun c hc => ?_⟩
        exact hresolve _ hpath c ((List.dropWhile_sublist _).subset hc)
      -- no name begins with the backslash in front, so the second pass replaces nothing
      rw [hname, qualifyAfter_nameChars further hchars, List.head?_cons, Option.any_some,
        if_neg (by decide)]
  · next hstart => rw [qualifyAfter_nameChars further hrow, if_neg hstart]

/-- A text in which the characters that begin names also continue them stays when it is qualified a
second time. -/
theorem qualifyAfter_twice
    (hresolve : ∀ name, IsPath name → ∀ c ∈ (resolve name).toList, isNameChar c = true)
    (b : Option Char) (cs : List Char)
    (hcs : ∀ c ∈ cs, startsName c = true → isNameChar c = true) :
    qualifyAfter further b (qualifyAfter resolve b cs) = qualifyAfter resolve b cs := by
  have hrow : ∀ c ∈ cs.takeWhile isNameChar, isNameChar c = true :=
    List.all_eq_true.mp List.all_takeWhile
  have hsplit : cs.takeWhile isNameChar ++ cs.dropWhile isNameChar = cs :=
    List.takeWhile_append_dropWhile
  -- the recursion goes from stop to stop
  cases hdrop : cs.dropWhile isNameChar with
  | nil =>
    rw [hdrop, List.append_nil] at hsplit
    exact qualifyAfter_row_twice hresolve (hsplit ▸ hrow)
  | cons d rest =>
    rw [hdrop] at hsplit
    have hmem : ∀ c ∈ cs.takeWhile isNameChar ++ d :: rest, c ∈ cs := fun c hc => hsplit ▸ hc
    have hd : isNameChar d = false := by
      have hhead := List.head?_dropWhile_not isNameChar cs
      simpa [hdrop] using hhead
    have hstop : isStop d = true := by
      refine isStop_iff.mpr ⟨Bool.eq_false_iff.mpr fun hstarts => ?_, hd⟩
      rw [hcs d (hmem d (by simp)) hstarts] at hd
      cases hd
    have hrest : ∀ c ∈ rest, startsName c = true → isNameChar c = true := fun c hc =>
      hcs c (hmem c (by simp [hc]))
    have ih := qualifyAfter_twice hresolve (some d) rest hrest
    rw [← hsplit, qualifyAfter_append_stop resolve hstop, qualifyAfter_append_stop further hstop,
      qualifyAfter_row_twice hresolve hrow, ih]
termination_by cs.length
decreasing_by
  have hle := Text.length_dropWhile_le isNameChar cs
  rw [hdrop, List.length_cons] at hle
  omega

end Twice

/-- In ASCII the characters that begin names are name characters. -/
theorem isNameChar_of_startsName {c : Char} (hascii : c.toNat < 0x80) (h : startsName c = true) :
    isNameChar c = true := by
  have hrange : ¬ (0x80 ≤ c.toNat) := by omega
  simp only [startsName, hrange, decide_false, Bool.false_and, Bool.or_false] at h
  rcases Bool.or_eq_true _ _ ▸ h with halpha | hline
  · simp [isNameChar, Text.isWord, hascii, Char.isAlphanum, halpha]
  · simp [isNameChar, Text.isWord, hascii, hline]

/-- A text that was qualified in the scope of one file stays when it is qualified in that of
another, and it describes there what the text describes at home. -/
theorem qualify_qualify {text : String} {home : Scope} (htext : ∀ c ∈ text.toList, c.toNat < 0x80)
    (hhome : home.HasPaths) (away : Scope) :
    qualify away.qualify (qualify home.qualify text) = qualify home.qualify text ∧
      resolve away (qualify home.qualify text) = resolve home text := by
  have htwice : qualify away.qualify (qualify home.qualify text) = qualify home.qualify text := by
    refine congrArg String.ofList ?_
    rw [qualify, String.toList_ofList]
    exact qualifyAfter_twice (fun name hname => (Scope.HasPaths.qualify hhome hname).chars) none _
      fun c hc => isNameChar_of_startsName (htext c hc)
  exact ⟨htwice, congrArg parse htwice⟩

/-- Names, words, dollar signs, digits and rows of backslashes in one text. -/
theorem qualify_qualify_mixture :
    (∀ c ∈ "?User|int|$User|9User|\\\\User|Key\\-Person[]".toList, c.toNat < 0x80) ∧
    aliasScope.HasPaths ∧
    qualify (Scope.qualify { ns := "Other" })
        (qualify aliasScope.qualify "?User|int|$User|9User|\\\\User|Key\\-Person[]") =
      qualify aliasScope.qualify "?User|int|$User|9User|\\\\User|Key\\-Person[]" := by
  have hascii : ("?User|int|$User|9User|\\\\User|Key\\-Person[]".toList.all
      fun c => decide (c.toNat < 0x80)) = true := by decide
  have htext : ∀ c ∈ "?User|int|$User|9User|\\\\User|Key\\-Person[]".toList, c.toNat < 0x80 :=
    fun c hc => of_decide_eq_true (List.all_eq_true.mp hascii c hc)
  have hscope : aliasScope.HasPaths := hasPaths_ofList (by decide) (by decide)
  exact ⟨htext, hscope, (qualify_qualify htext hscope _).1⟩

end TypeFacts.TypeText
