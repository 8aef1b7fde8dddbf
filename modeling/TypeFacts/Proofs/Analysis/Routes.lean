import TypeFacts.Proofs.Analysis.Source
import TypeFacts.Proofs.Text.Trim

/-!
# Two routes to a class

A class can be asked for in two ways: as a part of the report of its file, or by its name together
with the file. The report has the classes by name, and of several classes with one name it has the
last; the search by name disregards letter case and takes the first. Where these are the same class,
both ways give the same declaration (`Session.analyzeClass_of_analyzeFile`).
-/

namespace TypeFacts

namespace FileOutline

/-- The file declares a class of the name, the first with this name in any letter case, and no other
with just this name after it. -/
def DeclaresOnce (f : FileOutline) (name : String) : Prop :=
  ∃ before after, f.classes.map ClassOutline.name = before ++ name :: after ∧
    (∀ n ∈ before, Text.lower n ≠ Text.lower name) ∧ name ∉ after

/-- The search for such a class finds the last one with its name. -/
theorem DeclaresOnce.exists_findClass? {f : FileOutline} {name : String} (h : f.DeclaresOnce name)
    (hslash : name.toList.head? ≠ some '\\') :
    ∃ c, c.name = name ∧ LastNamed ClassOutline.name f.classes c ∧ f.findClass? name = some c := by
  obtain ⟨_, _, hnames, hbefore, hafter⟩ := h
  obtain ⟨before, rest, hclasses, rfl, hrest⟩ := List.map_eq_append_iff.mp hnames
  obtain ⟨c, after, rfl, rfl, rfl⟩ := List.map_eq_cons_iff.mp hrest
  simp only [List.mem_map, forall_exists_index, and_imp, forall_apply_eq_imp_iff₂, not_exists,
    not_and] at hbefore hafter
  refine ⟨c, rfl, ⟨before, after, hclasses, hafter⟩, ?_⟩
  have hname : Text.withoutBackslashes c.name = c.name := by
    rw [Text.withoutBackslashes, Text.dropBackslashes_eq_self hslash, String.ofList_toList]
  have hnone : before.find? (fun d => Text.lower d.name == Text.lower c.name) = none :=
    List.find?_eq_none.mpr fun d hd => by simpa using hbefore d hd
  rw [findClass?, hclasses, hname, List.find?_append, hnone, Option.none_or]
  exact List.find?_cons_of_pos (beq_self_eq_true _)

end FileOutline

namespace Analysis

variable {readers : Table Doc.TagReader} {r r' : Doc.Reader}

/-- The class of the report is built from the last class of the outline with its name. -/
theorem buildClass_of_buildFile {keep : Bool} {file : String} {faults : List SourceFault}
    {outline : FileOutline} {report : FileReport} {cls : ClassOutline} {decl : ClassDecl}
    (hr : Doc.Reader.Sound readers r) (hr' : Doc.Reader.Sound readers r')
    (hreport : ((buildFile keep file faults outline).run r).1 = .ok report)
    (hcls : LastNamed ClassOutline.name outline.classes cls)
    (hdecl : report.classes.get? cls.name = some decl) :
    ((buildClass keep file none cls).run r').1 = .ok decl := by
  -- the classes are built one after the other, each as if the comments were those
  -- of the other reader
  have hclass : ∀ c, Gives (Doc.Reader.Sound readers) (buildClass keep file none c).run
      ((buildClass keep file none c).run r').1 := fun c => (steady_buildClass _ _ _ c).gives hr'
  obtain ⟨pairs, r₁, hpairs, hr₁, hreport⟩ :=
    (gives_mapM_named _ hclass outline.classes).exists_of_bind hr hreport
  obtain ⟨functions, r₂, -, -, hreport⟩ :=
    ((steady_mapM_named (fun f => steady_sourceFunction _ _ _ _ f) _).gives hr₁).exists_of_bind hr₁
      hreport
  obtain rfl := Except.ok.inj hreport
  obtain ⟨d, hd, hget⟩ := get?_of_lastNamed hpairs hcls
  rw [hd, ← Option.some.inj (hget.symm.trans hdecl)]

end Analysis

namespace Session

variable {tree : FileTree} {path : Path} {outline : FileOutline} {faults : List SourceFault}
  {report : FileReport} {name : String} {decl : ClassDecl}

/-- The report of a file is built from its outline, with no doc comments kept but those
of before. -/
theorem buildFile_of_fileReport {s : Session}
    (hread : ((readSource tree path).run s).1 = .ok (outline, faults))
    (hreport : ((fileReport tree path).run s).1 = .ok report) :
    ((Analysis.buildFile s.settings.keepReflected path.text faults outline).run s.docs).1
      = .ok report := by
  obtain ⟨hdocs, hsettings, -⟩ := sourceOnly_readSource tree path s
  rcases hrun : (readSource tree path).run s with ⟨r, s'⟩
  rw [hrun] at hread hdocs hsettings
  obtain rfl : r = .ok (outline, faults) := hread
  rw [fileReport, run_bind_ok hrun, run_get_bind, build_run, mapError_eq_ok] at hreport
  rw [← hdocs, ← hsettings]
  exact hreport

/-- A class in the report of a file is what a new session without reflection gives for its name
and the file, if the file declares it once. -/
theorem analyzeClass_of_analyzeFile (u : Setup)
    (hread : ((readSource tree path).run u.session).1 = .ok (outline, faults))
    (hreport : (byValue Stored.value (analyzeFile tree path) u.session).1 = .ok report)
    (hdecl : report.classes.get? name = some decl) (hslash : name.toList.head? ≠ some '\\')
    (honce : outline.DeclaresOnce name) :
    (byValue Stored.value (analyzeClass tree name (some path))
      { u with snapshot := none }.session).1 = .ok decl := by
  obtain ⟨cls, rfl, hlast, hfind⟩ := honce.exists_findClass? hslash
  have hdocs : Doc.Reader.Sound u.session.docs.readers u.session.docs := ⟨rfl, Memo.holds_empty⟩
  have hbuild := buildFile_of_fileReport hread (fileReport_of_analyzeFile hreport)
  have hclass := Analysis.buildClass_of_buildFile hdocs hdocs hbuild hlast hdecl
  -- the session without reflection differs in its host alone
  have hread' : ((readSource tree path).run { u with snapshot := none }.session).1
      = .ok (outline, faults) := by
    rw [← hread]
    exact readSource_withHost tree path u.session Host.none
  have hloaded : (loadedClass cls.name).run { u with snapshot := none }.session
      = (.ok none, { u with snapshot := none }.session) := rfl
  rw [analyzeClass_eq_ok, classDecl_of_source hloaded rfl hread' hfind, mapError_eq_ok]
  exact hclass

/-! ### A file that declares a class twice -/

/-- A file with a class between two of one name, and one whose name begins with a backslash. -/
def repeatedFile : List Sketch :=
  Sketch.file [.cls "A" [], .cls "B" [], .cls "A" [], .cls "\\C" []]

/-- A session that knows the file. -/
def repeatedSetup : Setup where
  parser := Sketch.parser [repeatedFile]

/-- The names of the classes, their lines in the report, and what is found for the names. -/
theorem repeatedSetup_values :
    ((readSource (sampleTree repeatedFile) ⟨"", ["a.php"]⟩).run repeatedSetup.session).1.map
      (fun r => r.1.classes.map ClassOutline.name) = .ok ["A", "B", "A", "\\C"] ∧
    (byValue Stored.value (analyzeFile (sampleTree repeatedFile) ⟨"", ["a.php"]⟩)
      repeatedSetup.session).1.map
      (fun r => ["A", "B", "\\C"].map fun name => (r.classes.get? name).map ClassDecl.line)
        = .ok [some (some 4), some (some 3), some (some 5)] ∧
    ["A", "\\C"].map (fun name =>
      (byValue Stored.value (analyzeClass (sampleTree repeatedFile) name (some ⟨"", ["a.php"]⟩))
        repeatedSetup.session).1.toOption.map ClassDecl.line) = [some (some 2), none] := by
  decide +kernel

theorem repeatedSetup_report : ∃ report first second third,
    (byValue Stored.value (analyzeFile (sampleTree repeatedFile) ⟨"", ["a.php"]⟩)
      repeatedSetup.session).1 = .ok report ∧
    report.classes.get? "A" = some first ∧ first.line = some 4 ∧
    report.classes.get? "B" = some second ∧ report.classes.get? "\\C" = some third := by
  obtain ⟨report, hreport, hlines⟩ := exists_of_map_eq_ok repeatedSetup_values.2.1
  obtain ⟨hA, hlines⟩ := List.cons.inj hlines
  obtain ⟨hB, hlines⟩ := List.cons.inj hlines
  obtain ⟨first, hfirst, hline⟩ := Option.map_eq_some_iff.mp hA
  obtain ⟨second, hsecond, -⟩ := Option.map_eq_some_iff.mp hB
  obtain ⟨third, hthird, -⟩ := Option.map_eq_some_iff.mp (List.cons.inj hlines).1
  exact ⟨report, first, second, third, hreport, hfirst, hline, hsecond, hthird⟩

theorem analyzeClass_of_analyzeFile_between : ∃ outline faults report decl,
    ((readSource (sampleTree repeatedFile) ⟨"", ["a.php"]⟩).run repeatedSetup.session).1
      = .ok (outline, faults) ∧
    (byValue Stored.value (analyzeFile (sampleTree repeatedFile) ⟨"", ["a.php"]⟩)
      repeatedSetup.session).1 = .ok report ∧
    report.classes.get? "B" = some decl ∧ "B".toList.head? ≠ some '\\' ∧ outline.DeclaresOnce "B" ∧
    (byValue Stored.value (analyzeClass (sampleTree repeatedFile) "B" (some ⟨"", ["a.php"]⟩))
      { repeatedSetup with snapshot := none }.session).1 = .ok decl := by
  obtain ⟨⟨outline, faults⟩, hread, hnames⟩ := exists_of_map_eq_ok repeatedSetup_values.1
  obtain ⟨report, -, decl, -, hreport, -, -, hdecl, -⟩ := repeatedSetup_report
  have honce : outline.DeclaresOnce "B" := ⟨["A"], ["A", "\\C"], hnames, by decide, by decide⟩
  exact ⟨outline, faults, report, decl, hread, hreport, hdecl, by decide, honce,
    analyzeClass_of_analyzeFile repeatedSetup hread hreport hdecl (by decide) honce⟩

/-- Of two classes with one name the report has the second, on line 4, and the search finds the
first. A class whose name begins with a backslash is in the report, and no search finds it. -/
theorem repeated_class_differs : ∃ report,
    (byValue Stored.value (analyzeFile (sampleTree repeatedFile) ⟨"", ["a.php"]⟩)
      repeatedSetup.session).1 = .ok report ∧
    ∀ name ∈ ["A", "\\C"], ∃ decl, report.classes.get? name = some decl ∧
      (byValue Stored.value (analyzeClass (sampleTree repeatedFile) name (some ⟨"", ["a.php"]⟩))
        repeatedSetup.session).1 ≠ .ok decl := by
  obtain ⟨report, first, -, third, hreport, hfirst, hline, -, hthird⟩ := repeatedSetup_report
  obtain ⟨hfound, hrest⟩ := List.cons.inj repeatedSetup_values.2.2
  have hmissing := (List.cons.inj hrest).1
  beta_reduce at hfound hmissing
  refine ⟨report, hreport, fun name hname => ?_⟩
  rcases List.mem_pair.mp hname with rfl | rfl
  · refine ⟨first, hfirst, fun h => ?_⟩
    rw [h] at hfound
    exact absurd (hline.symm.trans (Option.some.inj hfound)) (by decide)
  · refine ⟨third, hthird, fun h => ?_⟩
    rw [h] at hmissing
    cases hmissing

end Session

end TypeFacts
