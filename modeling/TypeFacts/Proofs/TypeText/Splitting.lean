import TypeFacts.Proofs.TypeText.Parts

/-!
# Splitting and joining

A text is cut at the separators that stand outside of all brackets. Brackets of all kinds are
counted together and a closing bracket may come too early, so where a separator cuts depends on all
that stands before it. But a cut is made at depth zero, and what follows is cut as if it stood alone
(`uncut_or_exists_cut`).

* A text has one piece more than it has cuts (`length_pieces_eq`).
* The parts of a text are in one piece each, and brackets stay open only in the last one
  (`parted_pieces`). Trimming keeps this (`Parted.map_trim`), and such parts come back when they are
  joined and split again (`Parted.pieces_intercalate`).

So splitting loses nothing but blanks, and splitting once more changes nothing
(`splitTopLevel_partition`).
-/

namespace TypeFacts.TypeText

open Text (Blank isBlank trim withoutBlanks)

/-! ### Depth -/

/-- The number of open brackets behind a text that begins at a depth. -/
def depthBehind (depth : Nat) (cs : List Char) : Nat :=
  cs.foldl depthAfter depth

@[simp] theorem depthBehind_nil (d : Nat) : depthBehind d [] = d := rfl

@[simp] theorem depthBehind_cons (d : Nat) (c : Char) (cs : List Char) :
    depthBehind d (c :: cs) = depthBehind (depthAfter d c) cs := rfl

theorem depthBehind_append (d : Nat) (cs ds : List Char) :
    depthBehind d (cs ++ ds) = depthBehind (depthBehind d cs) ds :=
  List.foldl_append

theorem depthBehind_of_blank {a : List Char} (ha : Blank a) (d : Nat) : depthBehind d a = d := by
  induction a with
  | nil => rfl
  | cons c a ih =>
    obtain ⟨hc, ha⟩ := List.forall_mem_cons.mp ha
    rw [depthBehind_cons, depthAfter_of_isBlank hc, ih ha]

theorem depthBehind_trim (d : Nat) (cs : List Char) :
    depthBehind d (trim cs) = depthBehind d cs := by
  obtain ⟨a, b, ha, hb, h⟩ := Text.exists_eq_pad_trim cs
  conv_rhs => rw [h]
  rw [depthBehind_append, depthBehind_append, depthBehind_of_blank ha, depthBehind_of_blank hb]

/-! ### Where a text is cut -/

section Cuts

variable {sep : Char} {d : Nat} {cs ds t : List Char} {ts : List (List Char)}

/-- The positions of the separators outside of all brackets, in a text that begins at a depth. -/
def cuts (sep : Char) (depth : Nat) (cs : List Char) : List Nat :=
  (List.range cs.length).filter fun i => cs[i]? == some sep && depthBehind depth (cs.take i) == 0

/-- A separator outside brackets is one cut more. -/
theorem length_cuts_cons (c : Char) : (cuts sep d (c :: cs)).length =
    (cuts sep (depthAfter d c) cs).length + if c = sep ∧ d = 0 then 1 else 0 := by
  have hrest :
      (fun i => (c :: cs)[i]? == some sep && depthBehind d ((c :: cs).take i) == 0) ∘ Nat.succ
      = fun i => cs[i]? == some sep && depthBehind (depthAfter d c) (cs.take i) == 0 := by
    funext i
    simp
  rw [cuts, List.length_cons, List.range_succ_eq_map, List.filter_cons, List.filter_map, hrest]
  split_ifs with hcut hsep hsep
  · simp [cuts]
  · simp_all
  · simp_all
  · simp [cuts]

/-- A text has one piece more than it has cuts. -/
theorem length_pieces_eq (ho : isOpener sep = false) (hc : isCloser sep = false) (d : Nat)
    (cs : List Char) : (pieces sep d cs).length = (cuts sep d cs).length + 1 := by
  induction cs generalizing d with
  | nil => rfl
  | cons c cs ih =>
    rw [length_cuts_cons]
    by_cases hcut : c = sep ∧ d = 0
    · obtain ⟨rfl, rfl⟩ := hcut
      rw [pieces_cons_sep ho hc, List.length_cons, ih, depthAfter_of_plain ho hc, if_pos ⟨rfl, rfl⟩]
    · have hno : c ≠ sep ∨ depthAfter d c ≠ 0 := by
        by_cases hsep : c = sep
        · rw [hsep, depthAfter_of_plain ho hc]
          exact .inr fun hd => hcut ⟨hsep, hd⟩
        · exact .inl hsep
      rw [pieces_cons_of_no_cut hno, List.length_modifyHead, ih, if_neg hcut]

/-! ### Texts that are not cut -/

/-- A text in one piece, if it begins at a depth. -/
def Uncut (sep : Char) (depth : Nat) (cs : List Char) : Prop :=
  pieces sep depth cs = [cs]

theorem uncut_iff_length : Uncut sep d cs ↔ (pieces sep d cs).length = 1 := by
  refine ⟨fun h => by rw [h, List.length_singleton], fun h => ?_⟩
  obtain ⟨p, hp⟩ := List.length_eq_one_iff.mp h
  have hjoin := intercalate_pieces sep d cs
  rw [hp, List.intercalate_singleton] at hjoin
  rw [Uncut, hp, hjoin]

/-- A text is not cut if its first character cuts nothing and the rest is not cut. -/
theorem uncut_cons {c : Char} : Uncut sep d (c :: cs) ↔
    (c ≠ sep ∨ depthAfter d c ≠ 0) ∧ Uncut sep (depthAfter d c) cs := by
  by_cases hcut : c = sep ∧ depthAfter d c = 0
  · obtain ⟨rfl, hzero⟩ := hcut
    simp [Uncut, pieces, hzero]
  · have hno := not_and_or.mp hcut
    rw [uncut_iff_length, uncut_iff_length, pieces_cons_of_no_cut hno, List.length_modifyHead,
      and_iff_right hno]

/-- A text in one piece belongs to the first piece as a whole. -/
theorem Uncut.pieces_append (h : Uncut sep d cs) (ds : List Char) :
    pieces sep d (cs ++ ds) = (pieces sep (depthBehind d cs) ds).modifyHead (cs ++ ·) := by
  induction cs generalizing d with
  | nil => exact (congrFun List.modifyHead_id _).symm
  | cons c cs ih =>
    obtain ⟨hno, hcs⟩ := uncut_cons.mp h
    rw [List.cons_append, pieces_cons_of_no_cut hno, ih hcs, List.modifyHead_modifyHead]
    rfl

/-- Blanks around a text do not cut it. -/
theorem Uncut.trim (hsep : isBlank sep = false) (h : Uncut sep 0 cs) : Uncut sep 0 (trim cs) := by
  rw [uncut_iff_length, ← length_splitOutside, splitOutside_trim hsep, length_splitOutside]
  exact uncut_iff_length.mp h

/-! ### The first cut -/

/-- A text is in one piece, or it is cut behind its first piece and the rest is cut as if it
stood alone. -/
theorem uncut_or_exists_cut (ho : isOpener sep = false) (hc : isCloser sep = false) (d : Nat)
    (cs : List Char) : Uncut sep d cs ∨ ∃ t rest, cs = t ++ sep :: rest ∧ Uncut sep d t ∧
      depthBehind d t = 0 ∧ pieces sep d cs = t :: pieces sep 0 rest := by
  induction cs generalizing d with
  | nil => exact .inl rfl
  | cons c cs ih =>
    by_cases hcut : c = sep ∧ depthAfter d c = 0
    · obtain ⟨rfl, hd⟩ := hcut
      rw [depthAfter_of_plain ho hc] at hd
      subst hd
      exact .inr ⟨[], cs, rfl, rfl, rfl, pieces_cons_sep ho hc cs⟩
    · have hno := not_and_or.mp hcut
      rcases ih (depthAfter d c) with h | ⟨t, rest, rfl, ht, hdepth, hpieces⟩
      · exact .inl (uncut_cons.mpr ⟨hno, h⟩)
      · refine .inr ⟨c :: t, rest, rfl, uncut_cons.mpr ⟨hno, ht⟩, hdepth, ?_⟩
        rw [pieces_cons_of_no_cut hno, hpieces, List.modifyHead_cons]

/-! ### Rows of parts -/

/-- The parts of a text: none of them is cut, and only in the last one brackets stay open. -/
inductive Parted (sep : Char) : List (List Char) → Prop
  | last {t : List Char} : Uncut sep 0 t → Parted sep [t]
  | cons {t : List Char} {ts : List (List Char)} : Uncut sep 0 t → depthBehind 0 t = 0 →
      Parted sep ts → Parted sep (t :: ts)

/-- The pieces of a text are parted by the separator. -/
theorem parted_pieces (ho : isOpener sep = false) (hc : isCloser sep = false) (cs : List Char) :
    Parted sep (pieces sep 0 cs) := by
  rcases uncut_or_exists_cut ho hc 0 cs with h | ⟨t, rest, hcs, ht, hdepth, hpieces⟩
  · rw [h]
    exact .last h
  · rw [hpieces]
    exact .cons ht hdepth (parted_pieces ho hc rest)
termination_by cs.length
decreasing_by
  rw [hcs, List.length_append, List.length_cons]
  omega

namespace Parted

theorem uncut (h : Parted sep ts) : ∀ t ∈ ts, Uncut sep 0 t := by
  induction h with
  | last ht => exact List.forall_mem_singleton.mpr ht
  | cons ht _ _ ih => exact List.forall_mem_cons.mpr ⟨ht, ih⟩

theorem map_trim (hsep : isBlank sep = false) (h : Parted sep ts) : Parted sep (ts.map trim) := by
  induction h with
  | last ht => exact .last (ht.trim hsep)
  | cons ht hdepth _ ih => exact .cons (ht.trim hsep) ((depthBehind_trim 0 _).trans hdepth) ih

/-- The parts come back when they are joined: behind each of them the depth is zero again. -/
theorem pieces_intercalate (ho : isOpener sep = false) (hc : isCloser sep = false)
    (h : Parted sep ts) : pieces sep 0 ([sep].intercalate ts) = ts := by
  induction h with
  | last ht => rwa [List.intercalate_singleton]
  | @cons t ts ht hdepth hts ih =>
    cases ts with
    | nil => cases hts
    | cons u us =>
      rw [List.intercalate_cons_cons, List.append_assoc, ht.pieces_append, hdepth,
        List.singleton_append, pieces_cons_sep ho hc, ih, List.modifyHead_cons, List.append_nil]

end Parted

/-! ### Splitting and joining -/

/-- Up to blanks, the parts joined by the separator are the text. -/
theorem withoutBlanks_intercalate_splitOutside (hsep : isBlank sep = false) (cs : List Char) :
    withoutBlanks ([sep].intercalate (splitOutside sep cs)) = withoutBlanks cs := by
  have hkeep : (!isBlank sep) = true := by rw [hsep]; rfl
  have hjoin : ∀ texts, withoutBlanks ([sep].intercalate texts)
      = [sep].intercalate (texts.map withoutBlanks) := Text.filter_intercalate hkeep
  have hparts : (splitOutside sep cs).map withoutBlanks = (pieces sep 0 cs).map withoutBlanks := by
    rw [splitOutside, List.map_map]
    exact List.map_congr_left fun p _ => Text.withoutBlanks_trim p
  rw [hjoin, hparts, ← hjoin, intercalate_pieces]

section Stable

variable (hsep : isBlank sep = false) (ho : isOpener sep = false) (hc : isCloser sep = false)
include hsep ho hc

/-- No part is split again. -/
theorem splitOutside_of_mem {p : List Char} (hp : p ∈ splitOutside sep cs) :
    splitOutside sep p = [p] := by
  obtain ⟨q, hq, rfl⟩ := List.mem_map.mp hp
  have huncut := (parted_pieces ho hc cs).uncut q hq
  rw [splitOutside_trim hsep, splitOutside, huncut, List.map_singleton]

/-- The joined parts are split into the same parts. -/
theorem splitOutside_intercalate_splitOutside (cs : List Char) :
    splitOutside sep ([sep].intercalate (splitOutside sep cs)) = splitOutside sep cs := by
  have hparted := (parted_pieces ho hc cs).map_trim hsep
  have htrim : trim ∘ trim = trim := funext Text.trim_trim
  rw [← splitOutside] at hparted
  rw [splitOutside, hparted.pieces_intercalate ho hc, splitOutside, List.map_map, htrim]

end Stable

end Cuts

/-! ### Splitting strings -/

theorem splitTopLevel_singleton (text : String) (sep : Char) :
    splitTopLevel text (String.singleton sep)
      = (splitOutside sep text.toList).map String.ofList := by
  simp [splitTopLevel]

theorem toList_joined (sep : Char) (texts : List (List Char)) :
    (Text.joined (String.singleton sep) (texts.map String.ofList)).toList
      = [sep].intercalate texts := by
  have hcomp : String.toList ∘ String.ofList = id := funext fun _ => String.toList_ofList
  rw [Text.joined, String.toList_intercalate, String.toList_singleton, List.map_map, hcomp,
    List.map_id]

/-- Splitting at a separator that is neither a blank nor a bracket. There is one part more than
there are separators outside of all brackets; up to blanks, the parts joined by the separator are
the text; no part is split again; and the joined parts are split into the same parts. -/
theorem splitTopLevel_partition (text : String) (sep : Char) (hsep : isBlank sep = false)
    (ho : isOpener sep = false) (hc : isCloser sep = false) :
    let parts := splitTopLevel text (String.singleton sep)
    let whole := Text.joined (String.singleton sep) parts
    parts.length = (cuts sep 0 text.toList).length + 1 ∧
    withoutBlanks whole.toList = withoutBlanks text.toList ∧
    (∀ part ∈ parts, splitTopLevel part (String.singleton sep) = [part]) ∧
    splitTopLevel whole (String.singleton sep) = parts := by
  intro parts whole
  have hparts : parts = (splitOutside sep text.toList).map String.ofList :=
    splitTopLevel_singleton text sep
  have hwhole : whole.toList = [sep].intercalate (splitOutside sep text.toList) := by
    rw [← toList_joined, ← hparts]
  refine ⟨?_, ?_, fun part hpart => ?_, ?_⟩
  · rw [hparts, List.length_map, length_splitOutside, length_pieces_eq ho hc]
  · rw [hwhole, withoutBlanks_intercalate_splitOutside hsep]
  · rw [hparts] at hpart
    obtain ⟨p, hp, rfl⟩ := List.mem_map.mp hpart
    rw [splitTopLevel_singleton, String.toList_ofList, splitOutside_of_mem hsep ho hc hp,
      List.map_singleton]
  · rw [splitTopLevel_singleton, hwhole, splitOutside_intercalate_splitOutside hsep ho hc, hparts]

/-- In this text one bracket is closed too often and another one stays open. -/
theorem splitTopLevel_partition_unbalanced :
    let text := "a>| <b|c>|\t(d|e"
    let parts := ["a>", "<b|c>", "(d|e"]
    (isBlank '|' = false ∧ isOpener '|' = false ∧ isCloser '|' = false) ∧
    splitTopLevel text "|" = parts ∧ (cuts '|' 0 text.toList).length + 1 = 3 ∧
    withoutBlanks (Text.joined "|" parts).toList = withoutBlanks text.toList ∧
    (∀ part ∈ parts, splitTopLevel part "|" = [part]) ∧
    splitTopLevel (Text.joined "|" parts) "|" = parts := by
  intro text parts
  have hsep : isBlank '|' = false ∧ isOpener '|' = false ∧ isCloser '|' = false := by decide
  have hparts : splitTopLevel text (String.singleton '|') = parts := by decide
  have h := splitTopLevel_partition text '|' hsep.1 hsep.2.1 hsep.2.2
  rw [hparts] at h
  exact ⟨hsep, hparts, h.1.symm, h.2⟩

end TypeFacts.TypeText
