import TypeFacts.Proofs.Analysis.Precedence
import TypeFacts.Proofs.Doc.DocumentedTypes
import TypeFacts.Proofs.TypeText.WholeNames

/-!
# Thrown types

A function that the source declares records the thrown types of its doc comment as texts. The other
documented types are resolved name by name, but the text of a thrown type is qualified as if it were
one class name (`Analysis.sourceFunction_throws`). So for class names the recorded text is read as
the type that the text resolves to, and for other texts it mostly is not
(`Analysis.throws_resolved_iff`): of a union only the first alternative is put into the namespace
(`Analysis.thrown_union_unresolved`).
-/

namespace TypeFacts.Analysis

open Doc (IsToken Line)
open TypeText (IsAlternative IsClassName NotImported StartsAsName isKeyword isReserved joinedTypes)

/-! ### What is recorded -/

/-- The texts of the thrown types in a doc comment. -/
def thrownTexts (readers : Table Doc.TagReader) (comment : Option String) : List String :=
  ((Doc.blockOf readers comment).tagsNamed "throws").filterMap fun tag => tag.type.filter (· != "")

section Recorded

variable {readers : Table Doc.TagReader} {r : Doc.Reader} {scope : Scope} {name file : String}
  {reflected : Option FunctionDecl} {f : FunctionOutline} {d : FunctionDecl}

theorem thrownNames_blockOf (scope : Scope) (comment : Option String) :
    thrownNames (some scope) (Doc.blockOf readers comment) =
      (thrownTexts readers comment).map scope.qualify := by
  rw [thrownTexts, List.map_filterMap]
  rfl

/-- A function of the source records the texts of its doc comment, each qualified as one name. -/
theorem sourceFunction_throws (hr : r.Sound readers)
    (h : ((sourceFunction name scope file reflected f).run r).1 = .ok d) :
    d.throws =
      (thrownTexts readers (f.docComment.or (reflected.bind (·.docComment)))).map
        scope.qualify := by
  obtain ⟨doc, r₁, hdoc, hr₁, h⟩ := (gives_docBlock _).exists_of_bind hr h
  obtain rfl := Except.ok.inj hdoc
  obtain ⟨parameters, r₂, -, hr₂, h⟩ :=
    (Gives.mapM fun p _ => gives_pure _).exists_of_bind hr₁ h
  obtain ⟨documented, r₃, -, -, h⟩ := (gives_pure _).exists_of_bind hr₂ h
  obtain rfl := Except.ok.inj h
  exact thrownNames_blockOf scope _

end Recorded

/-! ### Written comments -/

/-- A function whose doc comment has one line for each of the thrown types. -/
def throwing (texts : List String) : FunctionOutline where
  name := "f"
  qualifiedName := "App\\f"
  docComment := some (Doc.comment (texts.map (Line.tag "throws")))

section Written

variable {texts : List String}

/-- A type without blanks is the whole content of its tag. -/
theorem readTyped_token {s : String} (h : IsToken s.toList)
    (hsolid : s.toList.all (!Text.isBlank ·) = true) :
    Doc.readTyped s = .ok [("type", .str s), ("description", .str "")] := by
  obtain ⟨keep, hkeep, hsplit⟩ :=
    @Doc.splitTypeChars_spaced s "" h rfl (by decide)
  have hfilter : s.toList.filter keep = s.toList := List.filter_eq_self.mpr fun c hc =>
    hkeep c (by simpa using List.all_eq_true.mp hsolid c hc)
  have hwhole : Doc.spaced s "" = s := if_pos rfl
  rw [hwhole, hfilter] at hsplit
  have hne : s.isEmpty = false := by simpa [String.isEmpty_iff] using h.ne_empty
  rw [Doc.readTyped, Doc.splitTypeToken, hsplit]
  simp only [String.ofList_toList, hne]
  rfl

variable {readers : Table Doc.TagReader}
  (hreader : Doc.readerFor? readers "throws" = some Doc.readTyped)
  (htexts : ∀ s ∈ texts, IsToken s.toList ∧ s.toList.all (!Text.isBlank ·) = true)
include hreader htexts

theorem tags_throwing : (Doc.blockOf readers (throwing texts).docComment).tags =
    texts.map fun s => Doc.withValues "throws" s [("type", .str s), ("description", .str "")] := by
  have hlines : ∀ l ∈ texts.map (Line.tag "throws"), l.IsWritable := fun l hl => by
    obtain ⟨s, hs, rfl⟩ := List.mem_map.mp hl
    exact ⟨by decide, by decide, (htexts s hs).1.oneLine⟩
  have htags : Doc.tagsIn (texts.map (Line.tag "throws")) = texts.map fun s => ("throws", s) := by
    rw [Doc.tagsIn, List.filterMap_map]
    exact congrFun List.filterMap_eq_map texts
  rw [throwing, Doc.blockOf_comment, Doc.readBlock_comment _ hlines, Doc.blockWith, htags,
    List.map_map]
  exact List.map_congr_left fun s hs =>
    Doc.readTag_of_values hreader (readTyped_token (htexts s hs).1 (htexts s hs).2)

theorem thrownTexts_throwing : thrownTexts readers (throwing texts).docComment = texts := by
  have hname : ∀ s ∈ texts, (s != "") = true := fun s hs => by
    simpa using (htexts s hs).1.ne_empty
  have htype : ∀ s ∈ texts, (Doc.withValues "throws" s
      [("type", .str s), ("description", .str "")]).type.filter (· != "") = some s := fun s hs => by
    change Option.filter (· != "") (some s) = some s
    rw [Option.filter_some, if_pos (hname s hs)]
  rw [thrownTexts, DocBlock.tagsNamed, tags_throwing hreader htexts,
    List.filter_eq_self.mpr fun tag htag => ?_, List.filterMap_map]
  · exact (List.filterMap_congr htype).trans List.filterMap_some
  · obtain ⟨s, -, rfl⟩ := List.mem_map.mp htag
    exact beq_self_eq_true "throws"

/-- The function is declared, and records its thrown types. -/
theorem exists_throwing {r : Doc.Reader} (hr : r.Sound readers) (scope : Scope) : ∃ d,
    ((sourceFunction "App\\f" scope "a.php" none (throwing texts)).run r).1 = .ok d ∧
      d.throws = texts.map scope.qualify := by
  have hreturn : (Doc.blockOf readers (throwing texts).docComment).firstTag? "return" = none := by
    rw [DocBlock.firstTag?, tags_throwing hreader htexts, List.find?_eq_none]
    intro tag htag
    obtain ⟨s, -, rfl⟩ := List.mem_map.mp htag
    change ¬("throws" == "return") = true
    decide
  obtain ⟨d, hd, -⟩ : ∃ d, ((sourceFunction "App\\f" scope "a.php" none (throwing texts)).run r).1 =
      .ok d ∧ True := by
    refine (gives_docBlock (throwing texts).docComment).exists_bind hr fun r' _ => ?_
    rw [hreturn]
    exact ⟨_, rfl, trivial⟩
  refine ⟨d, hd, (sourceFunction_throws hr hd).trans ?_⟩
  exact congrArg (List.map scope.qualify) (thrownTexts_throwing hreader htexts)

end Written

/-! ### Where the recorded text is read as the resolved type -/

/-- What a function of the source records of its thrown types, and where this is read as the type
that the text resolves to.

* A class name is, unless its full name is a word of the grammar other than a keyword in lower case.
* Alternatives with names that are not imported are in the global namespace. In any other one they
  are only where the text is a word such as `self`, or where the first alternative is a class name
  and there are no class names in the others. -/
theorem throws_resolved_iff {readers : Table Doc.TagReader} {r : Doc.Reader} (hr : r.Sound readers)
    {scope : Scope} (hscope : scope.HasPaths) {name file : String} {reflected : Option FunctionDecl}
    {f : FunctionOutline} {d : FunctionDecl}
    (h : ((sourceFunction name scope file reflected f).run r).1 = .ok d) :
    d.throws =
        (thrownTexts readers (f.docComment.or (reflected.bind (·.docComment)))).map scope.qualify ∧
      ∀ s ∈ thrownTexts readers (f.docComment.or (reflected.bind (·.docComment))),
        (IsClassName s.toList → (s.toList.head? = some '\\' ∨ StartsAsName s) →
          (TypeText.parse (scope.qualify s) = TypeText.resolve scope s ↔
            (isReserved (scope.qualify s) = true → isKeyword (scope.qualify s) = true))) ∧
        ∀ t ts, s = joinedTypes (t :: ts) → (∀ u ∈ t :: ts, IsAlternative scope u) →
          NotImported scope s →
          (TypeText.parse (scope.qualify s) = TypeText.resolve scope s ↔
            scope.ns = "" ∨ Scope.isRelativeWord s = true ∨
              (∃ n, t = .named n false ∧ isReserved n = false) ∧
                ∀ u ∈ ts, u.AllNames (isReserved · = true)) := by
  refine ⟨sourceFunction_throws hr h, fun s _ => ⟨fun hclass hhead => ?_, ?_⟩⟩
  · exact TypeText.readsAsResolved_className hscope hclass hhead
  · rintro t ts rfl halternatives htext
    exact TypeText.readsAsResolved_alternatives hscope halternatives htext

/-- A scope with a namespace and an import. -/
def importingScope : Scope where
  ns := "App"
  imports := .ofList [("Gone", "Lib\\Gone")]

theorem readerFor?_throws :
    Doc.readerFor? (Doc.Reader.new []).readers "throws" = some Doc.readTyped :=
  Doc.readerFor?_builtin rfl

theorem isToken_name (w : String) (hne : w ≠ "") (hw : w.toList.all TypeText.isNameChar = true) :
    IsToken w.toList :=
  .of_nameChars (mt String.toList_eq_nil_iff.mp hne) (List.all_eq_true.mp hw)

/-- A type of this name can stand among others. -/
theorem isAlternative_named {scope : Scope} {n : String} {b : Bool}
    (hname : TypeText.IsCanonicalName n b) (hstart : StartsAsName n) (hfree : NotImported scope n) :
    IsAlternative scope (.named n b) :=
  ⟨.named hname, rfl, hstart, hfree⟩

theorem throws_resolved_iff_mixed :
    importingScope.HasPaths ∧
    ∃ d, ((sourceFunction "App\\f" importingScope "a.php" none
        (throwing ["Gone", "Denied|Failed", "Denied|null"])).run (Doc.Reader.new [])).1 = .ok d ∧
      d.throws = ["Lib\\Gone", "App\\Denied|Failed", "App\\Denied|null"] ∧
      TypeText.parse "Lib\\Gone" = TypeText.resolve importingScope "Gone" ∧
      TypeText.parse "App\\Denied|Failed" ≠ TypeText.resolve importingScope "Denied|Failed" ∧
      TypeText.parse "App\\Denied|null" = TypeText.resolve importingScope "Denied|null" := by
  have hscope : importingScope.HasPaths := TypeText.hasPaths_ofList (by decide) (by decide)
  have hdenied := isToken_name "Denied" (by decide) (by decide)
  have htexts : ∀ s ∈ ["Gone", "Denied|Failed", "Denied|null"],
      IsToken s.toList ∧ s.toList.all (!Text.isBlank ·) = true := by
    simp only [List.forall_mem_cons]
    exact ⟨⟨isToken_name "Gone" (by decide) (by decide), by decide⟩,
      ⟨hdenied.join (isToken_name "Failed" (by decide) (by decide)), by decide⟩,
      ⟨hdenied.join (isToken_name "null" (by decide) (by decide)), by decide⟩, by simp⟩
  have hsound := Doc.Reader.sound_new []
  obtain ⟨d, hd, hthrows⟩ := exists_throwing readerFor?_throws htexts hsound importingScope
  have hqualify : importingScope.qualify "Gone" = "Lib\\Gone" ∧
      importingScope.qualify "Denied|Failed" = "App\\Denied|Failed" ∧
      importingScope.qualify "Denied|null" = "App\\Denied|null" := by decide
  have hall := (throws_resolved_iff hsound hscope hd).2
  rw [show ((throwing _).docComment.or _) = (throwing _).docComment from rfl,
    thrownTexts_throwing readerFor?_throws htexts] at hall
  simp only [List.forall_mem_cons, hqualify] at hall
  obtain ⟨hgone, hfailed, hnull, -⟩ := hall
  have hfirst : IsAlternative importingScope (.named "Denied" false) :=
    isAlternative_named (by decide) (by unfold StartsAsName; decide) (by unfold NotImported; decide)
  refine ⟨hscope, d, hd, ?_, ?_, fun heq => ?_, ?_⟩
  · rw [hthrows]
    simp [hqualify]
  · exact (hgone.1 (by decide) (.inr (by unfold StartsAsName; decide))).mpr (by decide)
  · have hsecond : IsAlternative importingScope (.named "Failed" false) :=
      isAlternative_named (by decide) (by unfold StartsAsName; decide)
        (by unfold NotImported; decide)
    have hagree := (hfailed.2 (.named "Denied" false) [.named "Failed" false] (by decide)
      (by simpa using ⟨hfirst, hsecond⟩) (by unfold NotImported; decide)).mp heq
    rcases hagree with hns | hrelative | ⟨-, hothers⟩
    · exact absurd hns (by decide)
    · exact absurd hrelative (by decide)
    · have hreserved : isReserved "Failed" = true := hothers _ (List.mem_singleton_self _)
      exact absurd hreserved (by decide)
  · have hsecond : IsAlternative importingScope .null :=
      isAlternative_named (by decide) (by unfold StartsAsName; decide)
        (by unfold NotImported; decide)
    have hreserved : isReserved "null" = true := by decide
    exact (hnull.2 (.named "Denied" false) [.null] (by decide)
      (by simpa using ⟨hfirst, hsecond⟩) (by unfold NotImported; decide)).mpr
        (.inr (.inr ⟨⟨"Denied", rfl, by decide⟩, List.forall_mem_singleton.mpr hreserved⟩))

/-- The second alternative of a thrown union is not put into the namespace, as resolution does. -/
theorem thrown_union_unresolved :
    ∃ d, ((sourceFunction "App\\f" { ns := "App" } "a.php" none (throwing ["A|B"])).run
        (Doc.Reader.new [])).1 = .ok d ∧
      d.throws = ["App\\A|B"] ∧
      TypeText.parse "App\\A|B" =
        .ok (some (.union [.named "B" false, .named "App\\A" false] false)) ∧
      TypeText.resolve { ns := "App" } "A|B" =
        .ok (some (.union [.named "App\\A" false, .named "App\\B" false] false)) := by
  have htexts : ∀ s ∈ ["A|B"], IsToken s.toList ∧ s.toList.all (!Text.isBlank ·) = true :=
    List.forall_mem_singleton.mpr ⟨(isToken_name "A" (by decide) (by decide)).join
      (isToken_name "B" (by decide) (by decide)), by decide⟩
  obtain ⟨d, hd, hthrows⟩ :=
    exists_throwing readerFor?_throws htexts (Doc.Reader.sound_new []) { ns := "App" }
  have hscope : Scope.HasPaths { ns := "App" } := ⟨.inr (by decide), fun _ _ hget => by cases hget⟩
  have halternatives : ∀ u ∈ [Ty.named "A" false, .named "B" false],
      IsAlternative { ns := "App" } u := by
    simp only [List.forall_mem_cons]
    exact ⟨isAlternative_named (by decide) (by unfold StartsAsName; decide) rfl,
      isAlternative_named (by decide) (by unfold StartsAsName; decide) rfl, by simp⟩
  have hclass : IsClassName "App\\A".toList := by decide
  have hfirst : TypeText.ReadsAlternative ("App\\".toList ++ (Ty.named "A" false).render.toList)
      (.named "App\\A" false) := (TypeText.Denotes.plain (.bare (.className hclass))).reads
  have hparse := TypeText.parse_joinedTypes hfirst (List.forall_mem_cons.mp halternatives).2
  have hresolve := TypeText.resolve_joinedTypes hscope (by decide) halternatives
  refine ⟨d, hd, hthrows.trans (by decide), hparse.trans (by decide), hresolve.trans (by decide)⟩

end TypeFacts.Analysis
