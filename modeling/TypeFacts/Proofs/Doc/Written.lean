import TypeFacts.Proofs.Analysis.Steady
import TypeFacts.Proofs.Text.Trim

/-!
# Reading comments that were written line by line

A doc comment is written with an opening delimiter, a star in front of each line and a closing
delimiter. Reading it gives back what was written (`parse_comment`): of the text lines the first is
the summary and the others form the description, and each tag line is a tag with its name and its
content. This holds for every table of tag readers, also of readers that fail, and for a reader that
was used before.

A line must stand on one line without blanks around it, and a text line must not look like a tag.
Otherwise it may hold anything, also stars, slashes and delimiters: the markers are found by the
line breaks alone, so the one that was written is taken off each line and nothing else
(`contentLines_comment`).
-/

namespace TypeFacts.Doc

open Text (Blank isBlank trim)

/-! ### Lines -/

/-- A line of a doc comment: text, or a tag with a content that may be empty. -/
inductive Line where
  | text (text : String)
  | tag (name content : String)

/-- A text on one line without blanks around it. -/
structure OneLine (s : String) : Prop where
  unbroken : '\n' ∉ s.toList
  trimmed : trim s.toList = s.toList

instance (s : String) : Decidable (OneLine s) :=
  decidable_of_iff (s.toList.contains '\n' = false ∧ trim s.toList = s.toList)
    ⟨fun h => ⟨by simpa using h.1, h.2⟩, fun h => ⟨by simpa using h.unbroken, h.trimmed⟩⟩

/-- Does a text begin like a tag? -/
def beginsTag : List Char → Bool
  | '@' :: c :: _ => isTagNameChar c
  | _ => false

namespace Line

/-- A line as it is written. -/
def chars : Line → List Char
  | text s => s.toList
  | tag name content => '@' :: (name.toList ++ if content = "" then [] else ' ' :: content.toList)

/-- Lines that are read as they are meant. -/
def IsWritable : Line → Prop
  | text s => s ≠ "" ∧ OneLine s ∧ beginsTag s.toList = false
  | tag name content => name ≠ "" ∧ name.toList.all isTagNameChar = true ∧ OneLine content

instance : DecidablePred IsWritable
  | text s => inferInstanceAs (Decidable (s ≠ "" ∧ OneLine s ∧ beginsTag s.toList = false))
  | tag name content => inferInstanceAs (Decidable
      (name ≠ "" ∧ name.toList.all isTagNameChar = true ∧ OneLine content))

/-- The text of a line that is no tag. -/
def text? : Line → Option String
  | text s => some s
  | tag _ _ => none

/-- The name and the content of a line that is a tag. -/
def tag? : Line → Option (String × String)
  | text _ => none
  | tag name content => some (name, content)

end Line

/-- Rows of characters as the lines of a comment. -/
def commentOf (rows : List (List Char)) : List Char :=
  "/**".toList ++ (rows.flatMap (fun row => "\n * ".toList ++ row) ++ "\n */".toList)

/-- The comment with the given lines. -/
def comment (lines : List Line) : String :=
  String.ofList (commentOf (lines.map Line.chars))

/-! ### Taking the delimiters away -/

/-- Without its opening a comment consists of its marked rows and its closing. -/
theorem dropOpening_commentOf (rows : List (List Char)) :
    dropOpening (commentOf rows) = rows.flatMap (fun row => "\n * ".toList ++ row)
      ++ "\n */".toList := by
  -- the stars of the opening delimiter end at the first line break
  cases rows with
  | nil => rfl
  | cons row rows => rfl

/-- The closing is dropped and leaves the blanks in front of it. -/
theorem dropClosing_append (cs : List Char) :
    dropClosing (cs ++ "\n */".toList) = cs ++ "\n ".toList := by
  have hreverse :
      (cs ++ "\n */".toList).reverse = '/' :: '*' :: ' ' :: '\n' :: cs.reverse := by simp
  rw [dropClosing, hreverse]
  simp

/-- A comment has no blanks around it. -/
theorem trim_commentOf (rows : List (List Char)) : trim (commentOf rows) = commentOf rows := by
  refine Text.trim_eq_self (fun c hc => ?_) fun c hc => ?_
  · obtain rfl : '/' = c := by simpa [commentOf] using hc
    decide
  · rw [commentOf, List.getLast?_append_of_ne_nil _ (by simp),
      List.getLast?_append_of_ne_nil _ (by simp)] at hc
    obtain rfl : '/' = c := by simpa using hc
    decide

/-! ### Taking the markers away -/

/-- A marker at the start of a line is dropped. -/
theorem dropMarkers_of_marker {cs rest : List Char} (h : afterMarker? cs = some rest) :
    dropMarkers true cs = dropMarkers false rest := by
  rw [dropMarkers]
  split
  · next heq => rw [Option.some.inj (h.symm.trans heq)]
  · next heq =>
    rw [if_pos rfl, h] at heq
    cases heq

/-- All else stays, and a new line starts behind each line break. -/
theorem dropMarkers_cons {lineStart : Bool} {c : Char} {cs : List Char}
    (h : lineStart = true → afterMarker? (c :: cs) = none) :
    dropMarkers lineStart (c :: cs) = c :: dropMarkers (c == '\n') cs := by
  rw [dropMarkers]
  split
  · next heq =>
    split_ifs at heq with hstart
    rw [h hstart] at heq
    cases heq
  · rfl

/-- The characters of a row stay. -/
theorem dropMarkers_row_append {row : List Char} (hrow : '\n' ∉ row) (rest : List Char) :
    dropMarkers false (row ++ rest) = row ++ dropMarkers false rest := by
  induction row with
  | nil => rfl
  | cons c row ih =>
    obtain ⟨hc, hrow⟩ := not_or.mp (mt List.mem_cons.mpr hrow)
    have hbreak : (c == '\n') = false := beq_false_of_ne (Ne.symm hc)
    rw [List.cons_append, dropMarkers_cons (by simp), hbreak, ih hrow, List.cons_append]

/-- At the beginning of a line the marker goes, with the blanks before it and the space
behind it. -/
theorem dropMarkers_marker {a : List Char} (ha : Blank a) (rest : List Char) :
    dropMarkers true (a ++ '*' :: ' ' :: rest) = dropMarkers false rest := by
  have hstar : Text.trimLeft ('*' :: ' ' :: rest) = '*' :: ' ' :: rest :=
    Text.trimLeft_eq_self fun c hc => by
      obtain rfl : '*' = c := by simpa using hc
      decide
  refine dropMarkers_of_marker ?_
  rw [afterMarker?, Text.trimLeft_append_of_blank ha, hstar]
  rfl

/-- Blanks alone have no marker. -/
theorem dropMarkers_blank {a : List Char} (ha : Blank a) (lineStart : Bool) :
    dropMarkers lineStart a = a := by
  induction a generalizing lineStart with
  | nil =>
    cases lineStart
    all_goals rw [dropMarkers]; rfl
  | cons c a ih =>
    have hafter : afterMarker? (c :: a) = none := by
      rw [afterMarker?, Text.trimLeft_eq_nil_of_blank ha]
    rw [dropMarkers_cons fun _ => hafter, ih fun d hd => ha d (List.mem_cons_of_mem c hd)]

/-- Behind the first line each line loses its marker and keeps its line break. -/
theorem dropMarkers_rows {rows : List (List Char)} (hrows : ∀ row ∈ rows, '\n' ∉ row) :
    dropMarkers false (rows.flatMap (fun row => "\n * ".toList ++ row) ++ "\n ".toList)
      = rows.flatMap (fun row => '\n' :: row) ++ "\n ".toList := by
  induction rows with
  | nil => exact dropMarkers_blank (by decide) false
  | cons row rows ih =>
    obtain ⟨hrow, hrows⟩ := List.forall_mem_cons.mp hrows
    have htext : (row :: rows).flatMap (fun row => "\n * ".toList ++ row) ++ "\n ".toList
        = '\n' :: ([' '] ++ '*' :: ' ' ::
          (row ++ (rows.flatMap (fun row => "\n * ".toList ++ row) ++ "\n ".toList))) := by
      simp
    rw [htext, dropMarkers_cons (by simp), beq_self_eq_true, dropMarkers_marker (by decide),
      dropMarkers_row_append hrow, ih hrows]
    simp

/-! ### The lines of a comment -/

/-- Rows with line breaks between them are one row and others behind line breaks. -/
theorem intercalate_eq_flatMap (row : List Char) (rows : List (List Char)) :
    ['\n'].intercalate (row :: rows) = row ++ rows.flatMap fun row => '\n' :: row := by
  induction rows generalizing row with
  | nil => simp [List.intercalate_singleton]
  | cons next rows ih =>
    rw [List.intercalate_cons_cons, ih, List.flatMap_cons]
    simp

/-- Rows without line breaks are the lines of the rows joined. -/
theorem lines_intercalate {rows : List (List Char)} (hne : rows ≠ [])
    (hrows : ∀ row ∈ rows, '\n' ∉ row) : Text.lines (['\n'].intercalate rows) = rows := by
  have hother : ∀ row : List Char, '\n' ∉ row → ∀ c ∈ row, (c == '\n') = false :=
    fun row hrow c hc => beq_false_of_ne fun heq => hrow (heq ▸ hc)
  induction rows with
  | nil => exact absurd rfl hne
  | cons row rows ih =>
    obtain ⟨hrow, hrows⟩ := List.forall_mem_cons.mp hrows
    cases rows with
    | nil => rw [List.intercalate_singleton, Text.lines, Text.splitAt_of_forall (hother row hrow)]
    | cons next rows =>
      rw [List.intercalate_cons_cons, List.append_assoc, List.singleton_append, Text.lines,
        Text.splitAt_append_cons (hother row hrow) (by decide), ← Text.lines,
        ih (List.cons_ne_nil next rows) hrows]

/-- A row that is not empty and has no blanks around it. -/
structure IsRow (row : List Char) : Prop where
  nonempty : row ≠ []
  unbroken : '\n' ∉ row
  trimmed : trim row = row

/-- Rows joined by line breaks have no blanks around them. -/
theorem trim_intercalate {rows : List (List Char)} (hrows : ∀ row ∈ rows, IsRow row) :
    trim (['\n'].intercalate rows) = ['\n'].intercalate rows := by
  cases rows with
  | nil => rfl
  | cons row rows =>
    have hrow := hrows row List.mem_cons_self
    refine Text.trim_eq_self (fun c hc => (Text.ends_of_trim hrow.trimmed).1 c ?_) ?_
    · rwa [intercalate_eq_flatMap, List.head?_append_of_ne_nil _ hrow.nonempty] at hc
    · -- the last row ends the text
      induction rows generalizing row with
      | nil =>
        rw [List.intercalate_singleton]
        exact (Text.ends_of_trim hrow.trimmed).2
      | cons next rows ih =>
        obtain ⟨-, hrows⟩ := List.forall_mem_cons.mp hrows
        have hnext := hrows next List.mem_cons_self
        have hne : ['\n'].intercalate (next :: rows) ≠ [] := by
          rw [intercalate_eq_flatMap]
          exact List.append_ne_nil_of_left_ne_nil hnext.nonempty _
        rw [List.intercalate_cons_cons, List.getLast?_append_of_ne_nil _ hne]
        exact ih next hrows hnext

/-- The lines of a comment are the rows it was made of. -/
theorem contentLines_comment {rows : List (List Char)} (hrows : ∀ row ∈ rows, IsRow row) :
    contentLines (String.ofList (commentOf rows)) = rows := by
  have hbody : trim (dropMarkers true (dropClosing (dropOpening (trim (commentOf rows)))))
      = ['\n'].intercalate rows := by
    rw [trim_commentOf, dropOpening_commentOf, dropClosing_append]
    cases rows with
    | nil =>
      rw [List.flatMap_nil, List.nil_append, dropMarkers_blank (by decide)]
      decide
    | cons row rows =>
      obtain ⟨hrow, hothers⟩ := List.forall_mem_cons.mp hrows
      have htext : (row :: rows).flatMap (fun row => "\n * ".toList ++ row) ++ "\n ".toList
          = "\n ".toList ++ '*' :: ' ' ::
            (row ++ (rows.flatMap (fun row => "\n * ".toList ++ row) ++ "\n ".toList)) := by
        simp
      rw [htext, dropMarkers_marker (by decide), dropMarkers_row_append hrow.unbroken,
        dropMarkers_rows fun row h => (hothers row h).unbroken, ← List.append_assoc,
        ← intercalate_eq_flatMap, Text.trim_append_blank (by decide), trim_intercalate hrows]
  rw [contentLines, String.toList_ofList]
  simp only [hbody]
  cases rows with
  | nil => decide
  | cons row rows =>
    rw [lines_intercalate (List.cons_ne_nil row rows) fun row h => (hrows row h).unbroken,
      List.map_congr_left fun row h => (hrows row h).trimmed, List.map_id', List.filter_eq_self]
    intro row h
    simpa using (hrows row h).nonempty

/-! ### Text lines and tag lines -/

/-- The name of a tag has no blanks. -/
theorem not_isBlank_of_isTagNameChar {c : Char} (h : isTagNameChar c = true) :
    isBlank c = false := by
  simp only [isTagNameChar, Bool.or_eq_true, beq_iff_eq] at h
  rcases h with (h | rfl) | rfl
  · exact Text.not_isBlank_of_isWord h
  · decide
  · decide

/-- What stands behind the name of a tag. -/
def Line.tail (content : String) : List Char :=
  if content = "" then [] else ' ' :: content.toList

/-- A tag is written as its name and what stands behind it. -/
theorem Line.chars_tag (name content : String) :
    (Line.tag name content).chars = '@' :: (name.toList ++ Line.tail content) := rfl

/-- Without blanks around it the tail of a tag is its content. -/
theorem trim_tail {content : String} (h : OneLine content) :
    trim (Line.tail content) = content.toList := by
  unfold Line.tail
  split
  · next hempty => rw [hempty]; rfl
  · exact (Text.trim_blank_append (a := [' ']) (by decide) _).trans h.trimmed

/-- A line with a tag is read as the tag. -/
theorem tagLine?_tag {name content : String} (h : (Line.tag name content).IsWritable) :
    tagLine? (Line.tag name content).chars = some (name, content) := by
  obtain ⟨hne, hall, hcontent⟩ := h
  have hname := List.all_eq_true.mp hall
  have hstop : (Line.tail content).takeWhile isTagNameChar = [] ∧
      (Line.tail content).dropWhile isTagNameChar = Line.tail content := by
    unfold Line.tail
    split
    · exact ⟨rfl, rfl⟩
    · have hspace : isTagNameChar ' ' = false := by decide
      simp [hspace]
  have htake : (name.toList ++ Line.tail content).takeWhile isTagNameChar = name.toList := by
    rw [List.takeWhile_append_of_pos hname, hstop.1, List.append_nil]
  have hdrop : (name.toList ++ Line.tail content).dropWhile isTagNameChar = Line.tail content := by
    rw [List.dropWhile_append_of_pos hname, hstop.2]
  rw [Line.chars_tag, tagLine?, htake, hdrop, trim_tail hcontent]
  cases hlist : name.toList with
  | nil => exact absurd (String.toList_eq_nil_iff.mp hlist) hne
  | cons c cs =>
    change some (String.ofList (c :: cs), String.ofList content.toList) = some (name, content)
    rw [← hlist, String.ofList_toList, String.ofList_toList]

/-- A line of text is not taken for a tag. -/
theorem tagLine?_text {s : String} (h : (Line.text s).IsWritable) :
    tagLine? (Line.text s).chars = none := by
  obtain ⟨-, -, hmark⟩ := h
  change tagLine? s.toList = none
  unfold tagLine?
  split
  · next cs hcs =>
    cases cs with
    | nil => rfl
    | cons c cs =>
      have hc : isTagNameChar c = false := by rwa [hcs] at hmark
      simp [hc]
  · rfl

/-- A line that can be written is one row. -/
theorem Line.IsWritable.isRow {l : Line} (h : l.IsWritable) : IsRow l.chars := by
  cases l with
  | text s =>
    obtain ⟨hne, hline, -⟩ := h
    exact ⟨by simpa [Line.chars] using hne, hline.unbroken, hline.trimmed⟩
  | tag name content =>
    obtain ⟨hne, hall, hcontent⟩ := h
    have hchars : ∀ c ∈ '@' :: name.toList, isBlank c = false :=
      List.forall_mem_cons.mpr ⟨by decide, fun c hc =>
        not_isBlank_of_isTagNameChar (List.all_eq_true.mp hall c hc)⟩
    rw [Line.chars_tag, ← List.cons_append]
    refine ⟨by simp, fun hmem => ?_, Text.trim_eq_self (fun c hc => hchars c ?_) fun c hc => ?_⟩
    · rcases List.mem_append.mp hmem with hmem | hmem
      · exact absurd (hchars _ hmem) (by decide)
      · unfold Line.tail at hmem
        split at hmem
        · cases hmem
        · exact hcontent.unbroken (by simpa using hmem)
    · rw [List.cons_append, List.head?_cons] at hc
      exact Option.mem_some.mp hc ▸ List.mem_cons_self
    · by_cases hempty : content = ""
      · have htail : Line.tail content = [] := if_pos hempty
        rw [htail, List.append_nil] at hc
        exact hchars c (List.mem_of_getLast? hc)
      · have htail : Line.tail content = [' '] ++ content.toList := if_neg hempty
        have hlist : content.toList ≠ [] := fun hnil => hempty (String.toList_eq_nil_iff.mp hnil)
        rw [htail, ← List.append_assoc, List.getLast?_append_of_ne_nil _ hlist] at hc
        exact (Text.ends_of_trim hcontent.trimmed).2 c hc

/-! ### Blocks -/

section Blocks

variable (readers : Table TagReader)

/-- Whatever its reader does, a tag keeps its name and its content. -/
theorem readTag_kept (name content : String) :
    (readTag readers name content).name = name ∧
      (readTag readers name content).content = content := by
  unfold readTag
  split
  · exact ⟨rfl, rfl⟩
  · split <;> exact ⟨rfl, rfl⟩

/-- The texts among the lines. -/
def textsIn (lines : List Line) : List String :=
  lines.filterMap Line.text?

/-- The tags among the lines, with their contents. -/
def tagsIn (lines : List Line) : List (String × String) :=
  lines.filterMap Line.tag?

/-- What is found in a comment with the given lines. -/
def blockWith (lines : List Line) : DocBlock where
  summary := (textsIn lines).headD ""
  description := Text.joined " " (textsIn lines).tail
  tags := (tagsIn lines).map fun tag => readTag readers tag.1 tag.2

theorem textsIn_concat (lines : List Line) (l : Line) :
    textsIn (lines ++ [l]) = textsIn lines ++ l.text?.toList := by
  cases l <;> simp [textsIn, Line.text?]

theorem tagsIn_concat (lines : List Line) (l : Line) :
    tagsIn (lines ++ [l]) = tagsIn lines ++ l.tag?.toList := by
  cases l <;> simp [tagsIn, Line.tag?]

/-- No text line is empty. -/
theorem ne_empty_of_mem_textsIn {lines : List Line} (h : ∀ l ∈ lines, l.IsWritable) {s : String}
    (hs : s ∈ textsIn lines) : s ≠ "" := by
  obtain ⟨l, hl, heq⟩ := List.mem_filterMap.mp hs
  cases l with
  | text t =>
    obtain rfl : t = s := Option.some.inj heq
    exact (h _ hl).1
  | tag name content => cases heq

theorem isEmpty_joined {x : String} (hx : x ≠ "") (xs : List String) :
    (Text.joined " " (x :: xs)).isEmpty = false := by
  refine Bool.eq_false_iff.mpr fun hempty => hx ?_
  have hlist := congrArg String.toList (String.isEmpty_iff.mp hempty)
  cases xs with
  | nil => simpa [Text.joined] using hlist
  | cons y ys => simp [Text.joined, String.intercalate_cons_cons] at hlist

/-- One more line adds its text or its tag. -/
theorem addLine_blockWith {lines : List Line} {l : Line} (h : ∀ l ∈ lines, l.IsWritable)
    (hl : l.IsWritable) :
    addLine readers (blockWith readers lines) l.chars = blockWith readers (lines ++ [l]) := by
  cases l with
  | tag name content =>
    rw [addLine, tagLine?_tag hl, blockWith, blockWith, textsIn_concat, tagsIn_concat]
    simp [Line.text?, Line.tag?]
  | text s =>
    have hs : String.ofList (Line.text s).chars = s := String.ofList_toList
    rw [addLine, tagLine?_text hl, blockWith, blockWith, textsIn_concat, tagsIn_concat]
    simp only [hs, Line.text?, Line.tag?, Option.toList_some, Option.toList_none, List.append_nil]
    -- the first text is the summary, the second begins the description, and the
    -- others go on with it
    cases htexts : textsIn lines with
    | nil => rfl
    | cons x xs =>
      have hne : ∀ y ∈ x :: xs, y ≠ "" := fun y hy =>
        ne_empty_of_mem_textsIn h (htexts ▸ hy)
      have hx : x.isEmpty = false :=
        Bool.eq_false_iff.mpr (mt String.isEmpty_iff.mp (hne x List.mem_cons_self))
      cases xs with
      | nil => simp [hx, Text.joined]
      | cons y ys =>
        have hy := isEmpty_joined (hne y (by simp)) ys
        have hjoin : Text.joined " " (y :: ys ++ [s]) = Text.joined " " (y :: ys) ++ " " ++ s := by
          rw [Text.joined, String.intercalate_append_of_ne_nil (by simp) (by simp),
            String.intercalate_singleton]
          rfl
        simp only [List.headD_cons, List.cons_append, List.tail_cons, hx, hy] at hjoin ⊢
        rw [hjoin]
        rfl

/-- Adding lines one by one gives the block of all of them. -/
theorem foldl_addLine {before lines : List Line} (hbefore : ∀ l ∈ before, l.IsWritable)
    (h : ∀ l ∈ lines, l.IsWritable) :
    (lines.map Line.chars).foldl (addLine readers) (blockWith readers before)
      = blockWith readers (before ++ lines) := by
  induction lines generalizing before with
  | nil => rw [List.map_nil, List.foldl_nil, List.append_nil]
  | cons l lines ih =>
    obtain ⟨hl, hlines⟩ := List.forall_mem_cons.mp h
    have hnext : ∀ k ∈ before ++ [l], k.IsWritable := by
      simpa [or_imp, forall_and] using ⟨hbefore, hl⟩
    rw [List.map_cons, List.foldl_cons, addLine_blockWith readers hbefore hl, ih hnext hlines,
      List.append_assoc, List.singleton_append]

/-- Reading a written comment gives what its lines say. -/
theorem readBlock_comment {lines : List Line} (h : ∀ l ∈ lines, l.IsWritable) :
    readBlock readers (comment lines) = blockWith readers lines := by
  have hrows : ∀ row ∈ lines.map Line.chars, IsRow row := fun row hrow => by
    obtain ⟨l, hl, rfl⟩ := List.mem_map.mp hrow
    exact (h l hl).isRow
  rw [readBlock, comment, contentLines_comment hrows]
  exact @foldl_addLine readers [] lines (by simp) h

end Blocks

/-! ### Readers in use -/

namespace Reader

/-- What a reader of doc comments is asked to do. -/
inductive Act where
  | parse (comment : Option String)
  | register (name : String) (reader : TagReader)
  | clear

/-- The reader after one more act. -/
def step (r : Reader) : Act → Reader
  | .parse comment => (r.parse comment).2
  | .register name reader => r.register name reader
  | .clear => r.clear

/-- The reader after several acts. -/
def after (r : Reader) (acts : List Act) : Reader :=
  acts.foldl step r

/-- A new reader is sound. -/
theorem sound_new (further : List (String × TagReader)) :
    Sound (new further).readers (new further) :=
  ⟨rfl, Memo.holds_empty⟩

/-- A sound reader stays sound whatever it is asked to do. -/
theorem Sound.step {r : Reader} (h : r.Sound r.readers) (act : Act) :
    Sound (r.step act).readers (r.step act) := by
  cases act with
  | parse comment =>
    have hsound : Sound r.readers (r.parse comment).2 := (gives_block comment r h).2
    exact ⟨rfl, hsound.readers_eq.symm ▸ hsound.memo⟩
  | register name reader => exact ⟨rfl, Memo.holds_clear _⟩
  | clear => exact ⟨rfl, Memo.holds_clear _⟩

/-- So it does after any number of acts. -/
theorem Sound.after {r : Reader} (h : r.Sound r.readers) (acts : List Act) :
    Sound (r.after acts).readers (r.after acts) := by
  induction acts generalizing r with
  | nil => exact h
  | cons act acts ih => exact ih (h.step act)

end Reader

/-- A comment that is written is not blank, so its block is read. -/
theorem blockOf_comment (readers : Table TagReader) (lines : List Line) :
    blockOf readers (some (comment lines)) = readBlock readers (comment lines) := by
  have hne : (comment lines).isEmpty = false := by
    refine Bool.eq_false_iff.mpr fun hempty => ?_
    have hlist := congrArg String.toList (String.isEmpty_iff.mp hempty)
    simp [comment, commentOf] at hlist
  simp [blockOf, hne]

/-- A comment that was written line by line is read back: whatever tag readers are registered and
whatever was read before, the first text is the summary, the other texts form the description, and
the tags have the names and contents that were written, in order. -/
theorem parse_comment (further : List (String × TagReader)) (acts : List Reader.Act)
    {lines : List Line} (h : ∀ l ∈ lines, l.IsWritable) :
    ∃ serial block,
      (((Reader.new further).after acts).parse (some (comment lines))).1 = (serial, block) ∧
        block.summary = (textsIn lines).headD "" ∧
        block.description = Text.joined " " (textsIn lines).tail ∧
        block.tags.map (fun tag => (tag.name, tag.content)) = tagsIn lines := by
  have hsound := (Reader.sound_new further).after acts
  generalize (Reader.new further).after acts = r at hsound
  have hblock : (r.parse (some (comment lines))).1.2 = blockWith r.readers lines := by
    rw [← readBlock_comment r.readers h, ← blockOf_comment]
    exact (Reader.gives_block (some (comment lines)) r hsound).1
  refine ⟨_, _, rfl, ?_⟩
  rw [hblock]
  refine ⟨rfl, rfl, ?_⟩
  have hkept : ∀ tag ∈ tagsIn lines, ((readTag r.readers tag.1 tag.2).name,
      (readTag r.readers tag.1 tag.2).content) = tag := fun tag _ => by
    obtain ⟨hname, hcontent⟩ := readTag_kept r.readers tag.1 tag.2
    rw [hname, hcontent]
  rw [blockWith, List.map_map]
  exact (List.map_congr_left hkept).trans (List.map_id' _)

/-- Lines with stars, slashes, at signs and delimiters in them. -/
def starredLines : List Line :=
  [.tag "see-also" "", .text "* /** stars", .tag "App\\Note" "[*] * /", .text "@ home", .text "*/"]

/-- Stars, delimiters and the sign of tags inside lines, read after a failing reader
was registered. -/
theorem parse_comment_starred :
    (∀ l ∈ starredLines, l.IsWritable) ∧
    ∃ serial block, (((Reader.new []).after
        [.register "App\\Note" fun _ => .error .refused, .parse (some "/** @App\\Note x */")]).parse
          (some (comment starredLines))).1 = (serial, block) ∧
      block.summary = "* /** stars" ∧ block.description = "@ home */" ∧
      block.tags.map (fun tag => (tag.name, tag.content)) =
        [("see-also", ""), ("App\\Note", "[*] * /")] := by
  have hlines : ∀ l ∈ starredLines, l.IsWritable := by decide
  obtain ⟨serial, block, hparse, hsummary, hdescription, htags⟩ := parse_comment []
    [.register "App\\Note" fun _ => .error .refused, .parse (some "/** @App\\Note x */")] hlines
  exact ⟨hlines, serial, block, hparse, hsummary, hdescription, htags⟩

end TypeFacts.Doc
