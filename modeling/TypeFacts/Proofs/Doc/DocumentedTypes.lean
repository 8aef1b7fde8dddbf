import Mathlib.Data.List.Nodup
import TypeFacts.Proofs.Doc.TypeToken
import TypeFacts.Proofs.Doc.Written

/-!
# Documented types are recovered

A doc comment tells the types of parameters, of the result and of a variable by the texts of these
types. Whatever the order of its lines, the type that a line tells is found again under the name of
the parameter or of the tag (`documented_types`).

A line is read in three steps, and each has its lemma. The type is cut off in front of the content
(`splitTypeChars_spaced`), the variable behind it is read up to its description
(`Variable.ofChars?_spaced`), and the text of the type is read without some of its spaces
(`IsTypeText`). A text that is cut off well but read as another type leads to that type, as the name
`NULL` does (`capital_null_documented`).
-/

namespace TypeFacts.Doc

open Text (isBlank trim)
open TypeText (Canonical)

/-! ### Lines with a type -/

/-- Two texts of one line with a space between them are one line. -/
theorem OneLine.spaced {a b : String} (ha : OneLine a) (hne : a ≠ "") (hb : OneLine b) :
    OneLine (spaced a b) := by
  refine ⟨fun hmem => ?_, trim_spaced ha.trimmed hne hb.trimmed⟩
  by_cases hempty : b = ""
  · rw [Doc.spaced, if_pos hempty] at hmem
    exact ha.unbroken hmem
  · rw [toList_spaced hempty, List.mem_append, List.mem_cons] at hmem
    rcases hmem with hmem | hmem | hmem
    · exact ha.unbroken hmem
    · exact absurd hmem (by decide)
    · exact hb.unbroken hmem

/-- A token stands on one line. -/
theorem IsToken.oneLine {text : String} (h : IsToken text.toList) : OneLine text :=
  ⟨fun hmem => absurd (h.blanks _ hmem (by decide)) (by decide), h.trim_eq⟩

theorem IsToken.ne_empty {text : String} (h : IsToken text.toList) : text ≠ "" := fun heq =>
  h.ne_nil (by rw [heq]; rfl)

/-- A text that may stand behind a type: on one line, and not another alternative of a union. -/
structure IsRemark (s : String) : Prop extends OneLine s where
  bar : s.toList.head? ≠ some '|'

instance (s : String) : Decidable (IsRemark s) :=
  decidable_of_iff (OneLine s ∧ s.toList.head? ≠ some '|')
    ⟨fun h => ⟨h.1, h.2⟩, fun h => ⟨h.toOneLine, h.bar⟩⟩

/-- A tag whose content is the text of a type with a text behind it. -/
def typeLine (tag : String) (type : Ty) (behind : String) : Line :=
  .tag tag (spaced type.render behind)

/-- A parameter with its type and its description. -/
structure ParamLine where
  type : Ty
  name : String
  description : String

namespace ParamLine

/-- The variable of a parameter with the description behind it. -/
def behind (p : ParamLine) : String :=
  spaced ("$" ++ p.name) p.description

/-- The line that describes a parameter. -/
def line (p : ParamLine) : Line :=
  typeLine "param" p.type p.behind

/-- The name is a word and the description stands on one line. -/
structure IsWritable (p : ParamLine) : Prop where
  nonempty : p.name ≠ ""
  word : p.name.toList.all Text.isWord = true
  description : OneLine p.description

/-- The name of a parameter consists of word characters. -/
theorem IsWritable.isWord {p : ParamLine} (h : p.IsWritable) :
    ∀ c ∈ p.name.toList, Text.isWord c = true :=
  List.all_eq_true.mp h.word

theorem IsWritable.exists_cons {p : ParamLine} (h : p.IsWritable) :
    ∃ c cs, p.name.toList = c :: cs :=
  List.exists_cons_of_ne_nil (mt String.toList_eq_nil_iff.mp h.nonempty)

theorem toList_dollar (name : String) : ("$" ++ name).toList = '$' :: name.toList := by
  simp

theorem head?_behind (p : ParamLine) : p.behind.toList.head? = some '$' := by
  unfold behind spaced
  split <;> simp

/-- What stands behind the type of a parameter does not go on with the type. -/
theorem IsWritable.isRemark {p : ParamLine} (h : p.IsWritable) : IsRemark p.behind := by
  have hchars : ∀ c ∈ ("$" ++ p.name).toList, isBlank c = false := by
    rw [toList_dollar]
    exact List.forall_mem_cons.mpr
      ⟨by decide, fun c hc => Text.not_isBlank_of_isWord (h.isWord c hc)⟩
  have hname : OneLine ("$" ++ p.name) :=
    ⟨fun hmem => absurd (hchars _ hmem) (by decide),
      Text.trim_eq_self (fun c hc => hchars c (List.mem_of_mem_head? hc))
        fun c hc => hchars c (List.mem_of_getLast? hc)⟩
  refine ⟨hname.spaced (by simp [String.ext_iff]) h.description, ?_⟩
  rw [p.head?_behind]
  decide

end ParamLine

/-! ### Reading the variable -/

/-- Behind the dollar sign stand the word and its description. -/
theorem Variable.ofChars?_spaced {p : ParamLine} (h : p.IsWritable) :
    Variable.ofChars? p.behind.toList = some ⟨p.name, p.description, false⟩ := by
  obtain ⟨c, cs, hname⟩ := h.exists_cons
  have hword := h.isWord
  rw [hname, List.forall_mem_cons] at hword
  -- the word ends at the end of the text or at the space before the description
  have hbehind : ∃ after, p.behind.toList = '$' :: c :: (cs ++ after) ∧
      after.takeWhile Text.isWord = [] ∧ after.dropWhile Text.isWord = after ∧
      description? after = some p.description := by
    by_cases hempty : p.description = ""
    · refine ⟨[], ?_, rfl, rfl, by rw [hempty]; rfl⟩
      rw [ParamLine.behind, spaced, if_pos hempty, ParamLine.toList_dollar, hname, List.append_nil]
    · have hspace : Text.isWord ' ' = false := by decide
      refine ⟨' ' :: p.description.toList, ?_, by simp [hspace], by simp [hspace], ?_⟩
      · rw [ParamLine.behind, toList_spaced hempty, ParamLine.toList_dollar, hname]
        rfl
      · have hblank : isBlank ' ' = true := by decide
        have htrim : trim (' ' :: p.description.toList) = p.description.toList :=
          (Text.trim_blank_append (a := [' ']) (by decide) _).trans h.description.trimmed
        rw [description?, if_pos hblank, htrim, String.ofList_toList]
  obtain ⟨after, htext, htake, hdrop, hdescription⟩ := hbehind
  calc Variable.ofChars? p.behind.toList
      = if Text.isWord c then
          (description? ((cs ++ after).dropWhile Text.isWord)).map fun d =>
            ⟨String.ofList (c :: (cs ++ after).takeWhile Text.isWord), d, false⟩
        else none := by rw [htext]; rfl
    _ = some ⟨p.name, p.description, false⟩ := by
        rw [if_pos hword.1, List.takeWhile_append_of_pos hword.2,
          List.dropWhile_append_of_pos hword.2,
          htake, hdrop, hdescription, List.append_nil, ← hname, String.ofList_toList]
        rfl

/-! ### Reading the tags -/

/-- A text that is cut off as a type and read as the given one, also without some of its blanks. -/
structure IsTypeText (text : String) (t : Ty) : Prop where
  token : IsToken text.toList
  read : ∀ keep : Char → Bool, (∀ c, isBlank c = false → keep c = true) →
    TypeText.parse (String.ofList (text.toList.filter keep)) = .ok (some t)

/-- The text of a canonical type is a token that is read as the type. -/
theorem isTypeText_render {t : Ty} (h : Canonical t) : IsTypeText t.render t where
  token := Canonical.isToken_render h
  read := fun keep hkeep => by
    rw [TypeText.parse, String.toList_ofList]
    exact (Canonical.denotes_filter hkeep h).1.expression_eq

/-- The token that is cut off begins as the text does. -/
theorem IsToken.head_filter {cs : List Char} (h : IsToken cs) {keep : Char → Bool}
    (hkeep : ∀ c, isBlank c = false → keep c = true) :
    ∃ c, inType c = true ∧ (cs.filter keep).head? = some c := by
  obtain ⟨c, hc, hin⟩ := h.head
  obtain ⟨tail, rfl⟩ := List.head?_eq_some_iff.mp hc
  refine ⟨c, hin, ?_⟩
  rw [List.filter_cons_of_pos (hkeep c (not_isBlank_of_inType hin)), List.head?_cons]

/-- A type does not begin like a variable. -/
theorem beginsVariable_of_inType {c : Char} (h : inType c = true) (cs : List Char) :
    beginsVariable (c :: cs) = false := by
  unfold beginsVariable
  split
  · next heq => exact absurd ((List.cons.inj heq).1 ▸ h) (by decide)
  · next heq => exact absurd ((List.cons.inj heq).1 ▸ h) (by decide)
  · next heq => exact absurd ((List.cons.inj heq).1 ▸ h) (by decide)
  · rfl

/-- What the readers of tags with a type give: the text of the type and further values. -/
def Gives (values : Except TagFault TagValues) (t : Ty) : Prop :=
  ∃ text more, values = .ok (("type", .str text) :: more) ∧ TypeText.parse text = .ok (some t)

section Content

variable {text behind : String} {t : Ty}

/-- A type is split off from the remark behind it and read back. -/
theorem splitTypeToken_spaced (h : IsTypeText text t) (hbehind : IsRemark behind) :
    ∃ token, splitTypeToken (spaced text behind) = (token, behind) ∧
      token.isEmpty = false ∧ TypeText.parse token = .ok (some t) := by
  obtain ⟨keep, hkeep, hsplit⟩ := splitTypeChars_spaced h.token hbehind.trimmed hbehind.bar
  obtain ⟨c, -, hhead⟩ := h.token.head_filter hkeep
  refine ⟨_, ?_, ?_, h.read keep hkeep⟩
  · rw [splitTypeToken, hsplit]
    simp only [String.ofList_toList]
  · refine Bool.eq_false_iff.mpr fun hempty => ?_
    have hnil := congrArg String.toList (String.isEmpty_iff.mp hempty)
    rw [String.toList_ofList] at hnil
    rw [hnil] at hhead
    cases hhead

/-- A tag with a type gives the type. -/
theorem readTyped_spaced (h : IsTypeText text t) (hbehind : IsRemark behind) :
    Gives (readTyped (spaced text behind)) t := by
  obtain ⟨token, hsplit, hne, hparse⟩ := splitTypeToken_spaced h hbehind
  refine ⟨token, [("description", .str (Text.trimmed behind))], ?_, hparse⟩
  rw [readTyped, hsplit]
  simp [hne]

/-- A tag for a variable gives the type, too. -/
theorem readVar_spaced (h : IsTypeText text t) (hbehind : IsRemark behind) :
    Gives (readVar (spaced text behind)) t := by
  obtain ⟨token, hsplit, hne, hparse⟩ := splitTypeToken_spaced h hbehind
  rw [readVar, hsplit]
  simp only [hne, Bool.false_eq_true, if_false]
  split
  · exact ⟨token, _, rfl, hparse⟩
  · exact ⟨token, _, rfl, hparse⟩

/-- A type with a remark is not taken for a file. -/
theorem fileParameter?_spaced (h : IsToken text.toList) :
    fileParameter? (spaced text behind).toList = none := by
  have hhead : (spaced text behind).toList.head? = text.toList.head? := by
    by_cases hempty : behind = ""
    · rw [spaced, if_pos hempty]
    · rw [toList_spaced hempty, List.head?_append_of_ne_nil _ h.ne_nil]
  obtain ⟨c, hc, hin⟩ := h.head
  unfold fileParameter?
  split
  · next rest heq =>
    rw [heq, hc] at hhead
    rw [← Option.some.inj hhead] at hin
    exact absurd hin (by decide)
  · rfl

/-- The reader of parameters finds the type, the variable and its description. -/
theorem readParam_spaced {p : ParamLine} (h : IsTypeText text t) (hp : p.IsWritable) :
    ∃ token more, readParam (spaced text p.behind) = .ok (("type", .str token) ::
        ("variable", .str p.name) :: ("description", .str p.description) :: more) ∧
      TypeText.parse token = .ok (some t) := by
  obtain ⟨keep, hkeep, hsplit⟩ := splitTypeChars_spaced h.token hp.isRemark.trimmed hp.isRemark.bar
  obtain ⟨c, hin, hhead⟩ := h.token.head_filter hkeep
  obtain ⟨tail, htoken⟩ := List.head?_eq_some_iff.mp hhead
  rw [readParam, fileParameter?_spaced h.token]
  simp only [hsplit, htoken, beginsVariable_of_inType hin, Bool.false_eq_true, if_false,
    Variable.ofChars?_spaced hp]
  split
  · exact ⟨_, _, rfl, htoken ▸ h.read keep hkeep⟩
  · exact ⟨_, _, rfl, htoken ▸ h.read keep hkeep⟩

end Content

section Tags

variable {readers : Table TagReader} {name content : String} {read : TagReader} {t : Ty}

/-- A tag has the values that its reader finds. -/
theorem readTag_of_values {value : String × Json} {more : TagValues}
    (hreader : readerFor? readers name = some read) (hvalues : read content = .ok (value :: more)) :
    readTag readers name content = withValues name content (value :: more) := by
  rw [readTag, hreader]
  simp only [hvalues]

/-- A tag has the type that its reader gives. -/
theorem tagType_of_gives (hreader : readerFor? readers name = some read)
    (hgives : Gives (read content) t) :
    tagType (some (readTag readers name content)) = .ok (some t) := by
  obtain ⟨text, more, hvalues, hparse⟩ := hgives
  rw [readTag_of_values hreader hvalues]
  exact hparse

end Tags

/-! ### Comments -/

/-- What a comment tells about types: those of the parameters, of the result and of a variable, the
last two with the texts behind them. -/
structure Documented where
  params : List ParamLine
  result : Ty
  resultText : String
  var : Ty
  varText : String

namespace Documented

variable {D : Documented}

/-- The lines of the comment, in one order. -/
def lines (D : Documented) : List Line :=
  D.params.map ParamLine.line ++
    [typeLine "return" D.result D.resultText, typeLine "var" D.var D.varText]

/-- The types in the comment. -/
def types (D : Documented) : List Ty :=
  D.params.map ParamLine.type ++ [D.result, D.var]

/-- Every line can be written, and no parameter is described twice. -/
structure IsWritable (D : Documented) : Prop where
  params : ∀ p ∈ D.params, p.IsWritable
  distinct : (D.params.map ParamLine.name).Nodup
  resultText : IsRemark D.resultText
  varText : IsRemark D.varText

/-- All lines of a comment can be written if its types are tokens. -/
theorem IsWritable.lines (h : D.IsWritable) (htypes : ∀ t ∈ D.types, IsToken t.render.toList) :
    ∀ l ∈ D.lines, l.IsWritable := by
  have htag : ∀ {tag : String} {t : Ty} {s : String}, tag ≠ "" →
      tag.toList.all isTagNameChar = true → t ∈ D.types → IsRemark s →
      (typeLine tag t s).IsWritable := fun hne hchars ht hs =>
    ⟨hne, hchars, (htypes _ ht).oneLine.spaced (htypes _ ht).ne_empty hs.toOneLine⟩
  intro l hl
  rcases List.mem_append.mp hl with hparam | hother
  · obtain ⟨p, hp, rfl⟩ := List.mem_map.mp hparam
    have hmem : p.type ∈ D.types := List.mem_append_left _ (List.mem_map_of_mem hp)
    exact htag (by decide) (by decide) hmem (h.params p hp).isRemark
  · rcases List.mem_pair.mp hother with rfl | rfl
    · exact htag (by decide) (by decide) (by simp [types]) h.resultText
    · exact htag (by decide) (by decide) (by simp [types]) h.varText

end Documented

/-- A reader that reads comments keeps its tag readers. -/
theorem Reader.Sound.after_parses {readers : Table TagReader} {r : Reader} (h : r.Sound readers)
    (comments : List (Option String)) : Reader.Sound readers (r.after (comments.map .parse)) := by
  induction comments generalizing r with
  | nil => exact h
  | cons comment comments ih => exact ih (gives_block comment r h).2

/-- The only member with a property is found, wherever it stands. -/
theorem find?_eq_of_unique {α : Type} {l : List α} {p : α → Bool} {a : α} (ha : a ∈ l)
    (hp : p a = true) (hunique : ∀ b ∈ l, p b = true → b = a) : l.find? p = some a := by
  cases hfind : l.find? p with
  | none => exact absurd hp (List.find?_eq_none.mp hfind a ha)
  | some b => rw [hunique b (List.mem_of_find?_eq_some hfind) (List.find?_some hfind)]

/-! ### The tags of a comment -/

/-- Parameters, results and variables are read by the built-in tag readers. -/
structure ReadsTypes (readers : Table TagReader) : Prop where
  param : readerFor? readers "param" = some readParam
  result : readerFor? readers "return" = some readTyped
  var : readerFor? readers "var" = some readVar

/-- Readers that come with the language are found in a new reader. -/
theorem readerFor?_builtin {name : String} {read : TagReader}
    (h : Pairs.get? name builtinReaders = some read) :
    readerFor? (Reader.new []).readers name = some read := by
  have hentries : (Reader.new []).readers.entries = builtinReaders :=
    (Table.entries_insertAll (t := .empty) (by decide)).trans (List.nil_append _)
  rw [readerFor?, Table.get?, hentries, h]
  rfl

/-- A new reader reads the types of all tags. -/
theorem readsTypes_new : ReadsTypes (Reader.new []).readers :=
  ⟨readerFor?_builtin rfl, readerFor?_builtin rfl, readerFor?_builtin rfl⟩

namespace Documented

section Readers

variable (readers : Table TagReader)

/-- The tag of a parameter. -/
def paramTag (p : ParamLine) : DocTag :=
  readTag readers "param" (spaced p.type.render p.behind)

/-- The tag of the result. -/
def resultTag (D : Documented) : DocTag :=
  readTag readers "return" (spaced D.result.render D.resultText)

/-- The tag of the variable. -/
def varTag (D : Documented) : DocTag :=
  readTag readers "var" (spaced D.var.render D.varText)

theorem name_paramTag (p : ParamLine) : (paramTag readers p).name = "param" :=
  (readTag_kept _ _ _).1

theorem name_resultTag (D : Documented) : (D.resultTag readers).name = "return" :=
  (readTag_kept _ _ _).1

theorem name_varTag (D : Documented) : (D.varTag readers).name = "var" :=
  (readTag_kept _ _ _).1

end Readers

variable {D : Documented} {readers : Table TagReader} {read : Ty → Ty} {lines : List Line}

/-- Whatever the order of the lines, the tags are those of the parameters, the result and
the variable. -/
theorem mem_tags (hlines : lines.Perm D.lines) {tag : DocTag} :
    tag ∈ (blockWith readers lines).tags ↔
      (∃ p ∈ D.params, paramTag readers p = tag) ∨ tag = D.resultTag readers ∨
        tag = D.varTag readers := by
  have htags : tagsIn D.lines = D.params.map (fun p => ("param", spaced p.type.render p.behind)) ++
      [("return", spaced D.result.render D.resultText),
        ("var", spaced D.var.render D.varText)] := by
    rw [tagsIn, Documented.lines, List.filterMap_append, List.filterMap_map]
    congr 1
    exact congrFun List.filterMap_eq_map D.params
  have hperm : (blockWith readers lines).tags.Perm
      (D.params.map (paramTag readers) ++ [D.resultTag readers, D.varTag readers]) := by
    have hmap := (hlines.filterMap Line.tag?).map fun tag => readTag readers tag.1 tag.2
    rw [← tagsIn, ← tagsIn, htags, List.map_append, List.map_map] at hmap
    exact hmap
  rw [hperm.mem_iff, List.mem_append, List.mem_map, List.mem_pair]

/-- The tag of a parameter says what its line says. -/
theorem paramTag_values (hreaders : ReadsTypes readers) {p : ParamLine} {t : Ty}
    (h : IsTypeText p.type.render t) (hp : p.IsWritable) :
    (paramTag readers p).var = some p.name ∧ (paramTag readers p).description = p.description ∧
      tagType (some (paramTag readers p)) = .ok (some t) := by
  obtain ⟨token, more, hvalues, hparse⟩ := readParam_spaced h hp
  rw [paramTag, readTag_of_values hreaders.param hvalues]
  exact ⟨rfl, rfl, hparse⟩

/-- A parameter has one tag, the one of its line. -/
theorem paramTag?_eq (hreaders : ReadsTypes readers) (h : D.IsWritable)
    (htypes : ∀ t ∈ D.types, IsTypeText t.render (read t)) (hlines : lines.Perm D.lines)
    {p : ParamLine} (hp : p ∈ D.params) :
    (blockWith readers lines).paramTag? p.name = some (paramTag readers p) := by
  have hvars : ∀ {q : ParamLine}, q ∈ D.params → (paramTag readers q).var = some q.name := fun hq =>
    (paramTag_values hreaders (htypes _ (List.mem_append_left _ (List.mem_map_of_mem hq)))
      (h.params _ hq)).1
  have hname : String.ofList (p.name.toList.dropWhile (· == '$')) = p.name := by
    obtain ⟨c, cs, heq⟩ := (h.params p hp).exists_cons
    have hc : (c == '$') = false := by
      refine Bool.eq_false_iff.mpr fun hdollar => ?_
      have hword := (h.params p hp).isWord c (by simp [heq])
      rw [eq_of_beq hdollar] at hword
      exact absurd hword (by decide)
    rw [heq, List.dropWhile_cons, hc, if_neg (by simp), ← heq, String.ofList_toList]
  rw [DocBlock.paramTag?, hname]
  refine find?_eq_of_unique ((mem_tags hlines).mpr (.inl ⟨p, hp, rfl⟩))
    (by simp [name_paramTag, hvars hp]) fun tag htag hfits => ?_
  rw [Bool.and_eq_true, beq_iff_eq, beq_iff_eq] at hfits
  rcases (mem_tags hlines).mp htag with ⟨q, hq, rfl⟩ | rfl | rfl
  · rw [hvars hq, Option.some.injEq] at hfits
    rw [List.inj_on_of_nodup_map h.distinct hq hp hfits.2]
  · rw [name_resultTag] at hfits
    exact absurd hfits.1 (by decide)
  · rw [name_varTag] at hfits
    exact absurd hfits.1 (by decide)

/-- The result and the variable have one tag each. -/
theorem firstTag?_eq (hlines : lines.Perm D.lines) {tag : DocTag}
    (htag : tag = D.resultTag readers ∨ tag = D.varTag readers) :
    (blockWith readers lines).firstTag? tag.name = some tag := by
  refine find?_eq_of_unique ((mem_tags hlines).mpr (.inr htag)) (beq_self_eq_true _)
    fun other hother hfits => ?_
  -- the tags of the three kinds have different names
  rcases htag with rfl | rfl <;> rcases (mem_tags hlines).mp hother with ⟨q, -, rfl⟩ | rfl | rfl <;>
    simp [name_paramTag, name_resultTag, name_varTag] at hfits ⊢

/-- Every type in the comment is found as what its text is read as. -/
theorem types_read (h : D.IsWritable) (htypes : ∀ t ∈ D.types, IsTypeText t.render (read t))
    (hlines : lines.Perm D.lines) {r : Reader} (hreaders : ReadsTypes readers)
    (hsound : r.Sound readers) {block : DocBlock}
    (hblock : (r.block (some (comment lines))).1 = block) :
    (∀ p ∈ D.params, parameterType block p.name = .ok (some (read p.type)) ∧
        ∃ tag, block.paramTag? p.name = some tag ∧ tag.var = some p.name ∧
          tag.description = p.description) ∧
      returnType block = .ok (some (read D.result)) ∧
      variableType block = .ok (some (read D.var)) := by
  have hwritable : ∀ l ∈ lines, l.IsWritable := fun l hl =>
    h.lines (fun t ht => (htypes t ht).token) l (hlines.mem_iff.mp hl)
  have hread : block = blockWith readers lines := by
    rw [← hblock, ← readBlock_comment _ hwritable, ← blockOf_comment]
    exact (Reader.gives_block _ _ hsound).1
  subst hread
  refine ⟨fun p hp => ?_, ?_, ?_⟩
  · have htype := htypes p.type (List.mem_append_left _ (List.mem_map_of_mem hp))
    obtain ⟨hvar, hdescription, htag⟩ := paramTag_values hreaders htype (h.params p hp)
    have hfound := paramTag?_eq hreaders h htypes hlines hp
    refine ⟨?_, paramTag readers p, hfound, hvar, hdescription⟩
    rw [parameterType, hfound]
    exact htag
  · rw [returnType, ← D.name_resultTag readers, firstTag?_eq hlines (.inl rfl)]
    exact tagType_of_gives hreaders.result
      (readTyped_spaced (htypes _ (by simp [types])) h.resultText)
  · rw [variableType, ← D.name_varTag readers, firstTag?_eq hlines (.inr rfl)]
    exact tagType_of_gives hreaders.var (readVar_spaced (htypes _ (by simp [types])) h.varText)

end Documented

/-- The types in a comment are recovered, whatever the order of its lines and whatever the reader
read before: every parameter has its type, and its tag has its name and its description; the result
and the variable have theirs. -/
theorem documented_types {D : Documented} (h : D.IsWritable) (htypes : ∀ t ∈ D.types, Canonical t)
    {lines : List Line} (hlines : lines.Perm D.lines) (earlier : List (Option String)) :
    ∃ block r, ((Reader.new []).after (earlier.map .parse)).block (some (comment lines))
      = (block, r) ∧
      (∀ p ∈ D.params, parameterType block p.name = .ok (some p.type) ∧
        ∃ tag, block.paramTag? p.name = some tag ∧ tag.var = some p.name ∧
          tag.description = p.description) ∧
      returnType block = .ok (some D.result) ∧ variableType block = .ok (some D.var) :=
  ⟨_, _, rfl, Documented.types_read h (fun t ht => isTypeText_render (htypes t ht)) hlines
    readsTypes_new ((Reader.sound_new []).after_parses earlier) rfl⟩

/-- The comment with the lines

* `@param array<string, array<?App\\User>|int> $rows [all] of | $them <`,
* `@param User $first_2`,
* `@return array<?App\\User>|int|null $text > of`,
* `@var array<User>`. -/
def rowsComment : Documented where
  params := [⟨.keyed (.scalar .string false)
      (.union [.scalar .int false, .array (.named "App\\User" true) false] false) false,
      "rows", "[all] of | $them <"⟩, ⟨.named "User" false, "first_2", ""⟩]
  result := .union [.scalar .int false, .array (.named "App\\User" true) false] true
  resultText := "$text > of"
  var := .array (.named "User" false) false
  varText := ""

/-- A comment with an array of rows, read in reverse order after an empty one. -/
theorem documented_types_rows :
    rowsComment.IsWritable ∧ (∀ t ∈ rowsComment.types, Canonical t) ∧
    ∃ block r, ((Reader.new []).after [.parse none]).block
        (some (comment rowsComment.lines.reverse)) = (block, r) ∧
      parameterType block "rows" = .ok (some (.keyed (.scalar .string false)
        (.union [.scalar .int false, .array (.named "App\\User" true) false] false) false)) ∧
      (∃ tag, block.paramTag? "rows" = some tag ∧ tag.var = some "rows" ∧
        tag.description = "[all] of | $them <") ∧
      returnType block =
        .ok (some (.union [.scalar .int false, .array (.named "App\\User" true) false] true)) ∧
      variableType block = .ok (some (.array (.named "User" false) false)) := by
  have hwritable : rowsComment.IsWritable := by
    refine ⟨fun p hp => ?_, by decide, by decide, by decide⟩
    rcases List.mem_pair.mp hp with rfl | rfl <;> exact ⟨by decide, by decide, by decide⟩
  have hname : ∀ n, TypeText.IsCanonicalName "App\\User" n ∧ TypeText.IsCanonicalName "User" n := by
    decide
  have hunion : ∀ n, Canonical
      (.union [.scalar .int false, .array (.named "App\\User" true) false] n) := fun n => by
    refine .union _ (by decide) (by unfold Ty.Increasing; decide) (by decide) fun m hm => ?_
    rcases List.mem_pair.mp hm with rfl | rfl
    · exact .scalar _ _
    · exact .array _ (.named (hname true).1)
  have htypes : ∀ t ∈ rowsComment.types, Canonical t := by
    refine List.forall_mem_cons.mpr ⟨.keyed _ (.scalar _ _) (hunion _), ?_⟩
    refine List.forall_mem_cons.mpr ⟨.named (hname false).2, ?_⟩
    exact fun t ht => (List.mem_pair.mp ht).elim (fun h => h ▸ hunion _)
      fun h => h ▸ .array _ (.named (hname false).2)
  obtain ⟨block, r, hblock, hparams, hresult, hvar⟩ :=
    documented_types hwritable htypes (List.reverse_perm rowsComment.lines) [none]
  obtain ⟨htype, htag⟩ := hparams _ List.mem_cons_self
  exact ⟨hwritable, htypes, block, r, hblock, htype, htag, hresult, hvar⟩

/-- The name `NULL` is written like any other name, and the type that is found is `null`. -/
theorem capital_null_documented :
    let D : Documented :=
      ⟨[⟨.named "NULL" false, "v", ""⟩], .scalar .int false, "", .scalar .int false, ""⟩
    D.IsWritable ∧
      parameterType ((Reader.new []).block (some (comment D.lines))).1 "v" = .ok (some .null) ∧
      Ty.null ≠ .named "NULL" false := by
  intro D
  have hwritable : D.IsWritable :=
    ⟨List.forall_mem_singleton.mpr ⟨by decide, by decide, by decide⟩, by decide, by decide,
      by decide⟩
  have hnull : IsTypeText (Ty.named "NULL" false).render .null := by
    have hchars : ∀ c ∈ (Ty.named "NULL" false).render.toList, TypeText.isNameChar c = true :=
      List.all_eq_true.mp (by decide)
    refine ⟨.of_nameChars (by decide) hchars, fun keep hkeep => ?_⟩
    rw [TypeText.parse, String.toList_ofList, TypeText.filter_nameChars hkeep hchars]
    have hdenotes : TypeText.Denotes .expression (Ty.named "NULL" false).render.toList .null :=
      .single (.plain (.bare (.null (by decide))))
    exact hdenotes.expression_eq
  have htypes : ∀ t ∈ D.types,
      IsTypeText t.render (if t = .named "NULL" false then .null else t) := by
    refine List.forall_mem_cons.mpr ⟨hnull, fun t ht => ?_⟩
    obtain rfl : t = .scalar .int false := (List.mem_pair.mp ht).elim id id
    exact isTypeText_render (.scalar _ _)
  have hread := (D.types_read hwritable htypes (List.Perm.refl _) readsTypes_new
    (Reader.sound_new []) rfl).1 _ List.mem_cons_self
  exact ⟨hwritable, hread.1, by decide⟩

end TypeFacts.Doc
