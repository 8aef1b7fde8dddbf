import TypeFacts.Proofs.Analysis.Session
import TypeFacts.Proofs.Tree.Sketch

/-!
# What is kept does not show

A run makes calls on one session, in any order and number, some of which may fail; when the session
is cleared the files may change. Every call of a run gives what a new session, made alike, would
give for this call alone on the files of the moment (`Session.answers_eq_alone`). Records are
compared by value, without the serial numbers that tell where they were stored.

Two things are asked of a run. The trees of the sources that its calls read are consistent: nodes of
one kind and text have equal subtrees. And each file is named by one path only.
-/

namespace TypeFacts

namespace Session

/-! ### Results by value -/

/-- What was found out about a target. -/
inductive Finding where
  | file (report : FileReport)
  | cls (decl : ClassDecl)

/-- What a record says. -/
def Record.finding : Record → Finding
  | .file stored => .file stored.value
  | .cls stored => .cls stored.value

/-- What was found out about several targets, and the messages of those that failed. -/
structure Findings where
  results : Table Finding := .empty
  errors : Table String := .empty

/-- What a batch says. -/
def Batch.findings (batch : Batch) : Findings where
  results := batch.results.mapValues Record.finding
  errors := batch.errors

/-- Notes the result for one more target; only a failure of its analysis is noted as an error. -/
def Findings.note (found : Findings) (target : String) : Except Stop Finding → Except Stop Findings
  | .ok x => .ok { found with results := found.results.insert target x }
  | .error (.failed f) => .ok { found with errors := found.errors.insert target f.message }
  | .error stop => .error stop

/-! ### Targets -/

section Targets

variable {b : Session} {Trees : Node → Prop} {tree : FileTree} {Named : Path → Prop}

/-- The file that a target names, where it names one. -/
def targetFile (tree : FileTree) (target : String) : List Path :=
  match tree.isFile (Path.ofText target) with
  | .ok true => [Path.ofText target]
  | _ => []

/-- The tree of the source that a target leads to: that of the file, or of the class. -/
def targetRoots (b : Session) (tree : FileTree) (target : String) : List Node :=
  match tree.isFile (Path.ofText target) with
  | .ok true => b.sourceRoots tree (Path.ofText target)
  | .ok false => b.classRoots tree target none
  | .error _ => []

section Routes

variable {target : String}

/-- A target whose path has a fault gives the fault. -/
theorem analyze_eq_of_fault {e : PathFault} (h : tree.isFile (Path.ofText target) = .error e) :
    analyze tree target = throw (.trouble (.badPath e)) := by
  rw [analyze, h]
  rfl

theorem analyze_eq_of_file (h : tree.isFile (Path.ofText target) = .ok true) :
    analyze tree target =
      (analyzeFile tree (Path.ofText target) >>= fun stored => pure (.file stored)) := by
  rw [analyze, h]
  exact pure_bind true _

theorem analyze_eq_of_not_file (h : tree.isFile (Path.ofText target) = .ok false) :
    analyze tree target = (get >>= fun s : Session =>
      if s.host.isLoaded target then
        analyzeClass tree target none >>= fun stored => pure (.cls stored)
      else throw (.failed (.notFound target (.targetMissing target)))) := by
  rw [analyze, h]
  exact pure_bind false _

end Routes

theorem byValue_bind {α β γ : Type} (value : β → γ) (x : RunM α) (f : α → RunM β) (s : Session) :
    byValue value (x >>= f) s = match x.run s with
      | (.ok a, s) => byValue value (f a) s
      | (.error stop, s) => (.error stop, s) := by
  show (((x >>= f).run s).1.map value, ((x >>= f).run s).2) = _
  rw [run_bind_apply]
  rcases x.run s with ⟨_ | _, _⟩ <;> rfl

/-- An analysis whose record is put into another form. -/
theorem steady_byValue_bind_pure {α β γ δ : Type} {Sound : Session → Prop} {x : RunM α} {f : α → β}
    {value : α → γ} {value' : β → δ} (h : Steady Sound (byValue value x)) (g : γ → δ)
    (hfg : ∀ a, value' (f a) = g (value a)) :
    Steady Sound (byValue value' (x >>= fun a => pure (f a))) := by
  obtain ⟨v, hv⟩ := h
  refine ⟨v.map g, fun s hs => ?_⟩
  have hrun : byValue value' (x >>= fun a => pure (f a)) s
      = ((byValue value x s).1.map g, (byValue value x s).2) := by
    rw [byValue_bind]
    show _ = (((x.run s).1.map value).map g, (x.run s).2)
    rcases x.run s with ⟨stop | a, s'⟩
    · rfl
    · exact congrArg (fun d => (Except.ok d, s')) (hfg a)
  rw [hrun]
  exact ⟨congrArg (Except.map g) (hv s hs).1, (hv s hs).2⟩

/-- An analysis that looks only at what all sound sessions have in common with a given one. -/
theorem steady_byValue_get_bind {α β : Type} {Sound : Session → Prop} {f : Session → RunM α}
    {value : α → β} (hf : ∀ s, Sound s → f s = f b) (h : Steady Sound (byValue value (f b))) :
    Steady Sound (byValue value (get >>= f)) := by
  obtain ⟨v, hv⟩ := h
  refine ⟨v, fun s hs => ?_⟩
  have hrun : byValue value (get >>= f) s = byValue value (f s) s := by
    show (((get >>= f).run s).1.map value, ((get >>= f).run s).2) = _
    rw [run_get_bind]
    rfl
  rw [hrun, hf s hs]
  exact hv s hs

variable (htrees : Node.Consistent (Node.Among Trees)) (hb : Sound b Trees tree Named b)
  (hone : ∀ p q, Named p → Named q → tree.resolve p = tree.resolve q → p = q)
include htrees hb hone

/-- What a target gives does not depend on what is kept, ages of records apart. -/
theorem steady_analyze {target : String} (hroots : ∀ root ∈ b.targetRoots tree target, Trees root)
    (hnamed : ∀ p ∈ targetFile tree target, Named p) :
    Steady (Sound b Trees tree Named) (byValue Record.finding (analyze tree target)) := by
  unfold targetFile at hnamed
  unfold targetRoots at hroots
  cases hfile : tree.isFile (Path.ofText target) with
  | error e =>
    rw [analyze_eq_of_fault hfile]
    exact steady_pure _
  | ok isFile =>
    rw [hfile] at hnamed hroots
    cases isFile with
    | true =>
      rw [analyze_eq_of_file hfile]
      exact steady_byValue_bind_pure
        (steady_analyzeFile htrees hb hone hroots (hnamed _ List.mem_cons_self)) Finding.file
        fun _ => rfl
    | false =>
      rw [analyze_eq_of_not_file hfile]
      refine steady_byValue_get_bind (b := b) (fun s hs => ?_) ?_
      · simp only [hs.host.isLoaded_eq]
      · split
        · exact steady_byValue_bind_pure (steady_analyzeClass htrees hb hroots) Finding.cls
            fun _ => rfl
        · exact steady_pure _

/-- A batch says what its targets give one by one, each as if it were the only one. -/
theorem gives_analyzeMany {targets : List String}
    (hroots : ∀ target ∈ targets, ∀ root ∈ b.targetRoots tree target, Trees root)
    (hnamed : ∀ target ∈ targets, ∀ p ∈ targetFile tree target, Named p) (batch : Batch) :
    Gives (Sound b Trees tree Named)
      (byValue Batch.findings (targets.foldlM (analyzeNext tree) batch))
      (targets.foldlM (fun found target =>
        found.note target (byValue Record.finding (analyze tree target) b).1) batch.findings) := by
  induction targets generalizing batch with
  | nil => exact gives_pure _
  | cons target targets ih =>
    intro s hs
    have hrest := fun batch => ih (fun t ht => hroots t (List.mem_cons_of_mem target ht))
      (fun t ht => hnamed t (List.mem_cons_of_mem target ht)) batch
    obtain ⟨hfirst, hsound⟩ := (steady_analyze htrees hb hone (hroots target List.mem_cons_self)
      (hnamed target List.mem_cons_self)).gives hb s hs
    rw [List.foldlM_cons, List.foldlM_cons]
    rw [byValue_bind, ← hfirst]
    replace hsound : Sound b Trees tree Named (analyze tree target s).2 := hsound
    show _ = (batch.findings.note target ((analyze tree target s).1.map Record.finding) >>= _) ∧ _
    rw [show (analyzeNext tree batch target).run s = analyzeNext tree batch target s from rfl,
      analyzeNext]
    -- failures are noted and the batch goes on; only trouble with a path ends it
    rcases hx : analyze tree target s with ⟨stop | record, s'⟩
    all_goals rw [hx] at hsound
    · cases stop with
      | failed f =>
        exact hrest { batch with errors := batch.errors.insert target f.message } s' hsound
      | trouble t => exact ⟨rfl, hsound⟩
    · obtain ⟨hval, hsound⟩ :=
        hrest { batch with results := batch.results.insert target record } s' hsound
      refine ⟨hval.trans ?_, hsound⟩
      rw [show Batch.findings { batch with results := batch.results.insert target record }
          = { batch.findings with
              results := batch.findings.results.insert target record.finding } from
        congrArg (fun results => (⟨results, batch.errors⟩ : Findings))
          (Table.mapValues_insert Record.finding batch.results target record)]
      rfl

end Targets

/-! ### Calls -/

/-- A call on a session. -/
inductive Call where
  /-- Analyses a file or a loaded class. -/
  | target (target : String)
  | file (path : Path)
  | cls (name : String)
  | function (name : String)
  /-- Analyses several targets. -/
  | many (targets : List String)
  /-- Infers the type of a node. -/
  | node (n : Node)
  /-- Infers the type of an expression. -/
  | expression (code : String)
  | comment (text : Option String)

/-- What a call gives. -/
inductive Answer where
  | target (result : Except Stop Finding)
  | file (result : Except Stop FileReport)
  | cls (result : Except Stop ClassDecl)
  | function (result : Except Stop FunctionDecl)
  | many (result : Except Stop Findings)
  | type (result : Except Ty.Fault Ty)
  | block (block : DocBlock)

namespace Call

/-- Makes a call while the files are as given. -/
def run (tree : FileTree) : Call → StateM Session Answer
  | target t => Answer.target <$> byValue Record.finding (analyze tree t)
  | file path => Answer.file <$> byValue Stored.value (analyzeFile tree path)
  | cls name => Answer.cls <$> byValue Stored.value (analyzeClass tree name none)
  | function name => Answer.function <$> byValue Stored.value (analyzeFunction name)
  | many ts => Answer.many <$> byValue Batch.findings (analyzeMany tree ts)
  | node n => Answer.type <$> (typeOf n).run
  | expression code => Answer.type <$> (inferType code).run
  | comment text => Answer.block <$> Session.comment text

/-- The paths by which a call names files. -/
def paths (tree : FileTree) : Call → List Path
  | target t => targetFile tree t
  | file path => [path]
  | many ts => ts.flatMap (targetFile tree)
  | _ => []

/-- The trees of the sources that a call may read, and the node that it is given. -/
def roots (b : Session) (tree : FileTree) : Call → List Node
  | target t => b.targetRoots tree t
  | file path => b.sourceRoots tree path
  | cls name => b.classRoots tree name none
  | many ts => ts.flatMap (b.targetRoots tree)
  | node n => [n]
  | expression code => [b.reader.tree (Utf8.encode (SourceReader.expressionSource code))]
  | function _ | comment _ => []

end Call

section Calls

variable {b : Session} {Trees : Node → Prop} {tree : FileTree} {Named : Path → Prop}
  {S : Session → Prop}

theorem gives_comment (hS : Framed (Primed b Trees) S) (text : Option String) :
    Gives S (comment text) (Doc.blockOf b.docs.readers text) :=
  (Doc.Reader.gives_block text).zoom docs (fun s d => { s with docs := d }) id
    (fun _ hs => (hS.base hs).docs) fun _ _ hs hd => hS.keep hs { hS.base hs with docs := hd } rfl

theorem occurs_expressionOf {Occurs : Node → Prop} (hclosed : Node.Closed Occurs) {root : Node}
    (hroot : Occurs root) : Occurs (SourceReader.expressionOf root) := by
  have hstatement : ∀ n, (((Cursor.ofRoot root).find ["expression_statement"]).head?.bind fun c =>
      c.node.namedChildren.head?) = some n → Occurs n := by
    intro n hn
    obtain ⟨c, hc, hhead⟩ := Option.bind_eq_some_iff.mp hn
    exact hclosed.namedChildren (hclosed.find hroot c (List.mem_of_head? hc))
      (List.mem_of_head? hhead)
  have hother : ∀ n, root.namedChildren.find? (·.kind != "php_tag") = some n → Occurs n :=
    fun n hn =>
    hclosed.namedChildren hroot (List.mem_of_find?_eq_some hn)
  unfold SourceReader.expressionOf
  simp only
  cases h : (((Cursor.ofRoot root).find ["expression_statement"]).head?.bind fun c =>
      c.node.namedChildren.head?) with
  | some n => exact hstatement n h
  | none =>
    cases h' : root.namedChildren.find? (·.kind != "php_tag") with
    | some n => exact hother n h'
    | none => exact hroot

variable (htrees : Node.Consistent (Node.Among Trees)) (hb : Sound b Trees tree Named b)
include htrees

/-- The type of an expression does not depend on what is kept. -/
theorem steady_inferType (hS : Framed (Primed b Trees) S) {code : String}
    (hroot : Trees (b.reader.tree (Utf8.encode (SourceReader.expressionSource code)))) :
    Steady S (inferType code).run := by
  have hnode : Node.Among Trees (b.reader.readExpression code).1 :=
    occurs_expressionOf (Node.closed_among Trees) (Node.among_root hroot)
  obtain ⟨v, hv⟩ := steady_typeOf hS htrees hnode
  refine ⟨v, fun s hs => ?_⟩
  obtain ⟨hread, hsound⟩ := gives_read hS (Utf8.encode (SourceReader.expressionSource code)) s hs
  have hsame : (s.reader.readExpression code).1 = (b.reader.readExpression code).1 :=
    congrArg (fun r : Node × List SourceFault => SourceReader.expressionOf r.1) hread
  have hrun : (inferType code).run s = (typeOf (s.reader.readExpression code).1).run
      { s with reader := (s.reader.read (Utf8.encode (SourceReader.expressionSource code))).2 } :=
        rfl
  rw [hrun, hsame]
  exact hv _ hsound

include hb

/-- A call gives in every sound session what it gives in the new one, and leaves it sound. -/
theorem gives_run
    (hone : ∀ p q, Named p → Named q → tree.resolve p = tree.resolve q → p = q) {c : Call}
    (hroots : ∀ root ∈ c.roots b tree, Trees root) (hpaths : ∀ p ∈ c.paths tree, Named p) :
    Gives (Sound b Trees tree Named) (c.run tree) (c.run tree b).1 := by
  have hanswer : ∀ {α : Type} {x : StateM Session α} (f : α → Answer),
      Steady (Sound b Trees tree Named) x →
        Gives (Sound b Trees tree Named) (f <$> x) ((f <$> x) b).1 :=
    fun f hx => (hx.gives hb).mapResult f
  cases c with
  | target t => exact hanswer _ (steady_analyze htrees hb hone hroots hpaths)
  | file path =>
    exact hanswer _ (steady_analyzeFile htrees hb hone hroots (hpaths path List.mem_cons_self))
  | cls name => exact hanswer _ (steady_analyzeClass htrees hb hroots)
  | function name => exact hanswer _ (steady_analyzeFunction hb name)
  | many ts =>
    have hgiven : ∀ t ∈ ts, ∀ root ∈ b.targetRoots tree t, Trees root := fun t ht root hroot =>
      hroots root (List.mem_flatMap.mpr ⟨t, ht, hroot⟩)
    have hnamed : ∀ t ∈ ts, ∀ p ∈ targetFile tree t, Named p := fun t ht p hp =>
      hpaths p (List.mem_flatMap.mpr ⟨t, ht, hp⟩)
    exact hanswer _ ⟨_, gives_analyzeMany htrees hb hone hgiven hnamed {}⟩
  | node n =>
    have hn : Node.Among Trees n := Node.among_root (hroots n List.mem_cons_self)
    exact hanswer _ (steady_typeOf framed_sound htrees hn)
  | expression code =>
    exact hanswer _ (steady_inferType htrees framed_sound (hroots _ List.mem_cons_self))
  | comment text => exact hanswer _ ⟨_, gives_comment framed_sound text⟩

end Calls

/-! ### Runs -/

/-- A step of a run: a call, or clearing the session, after which the files are as given. -/
inductive Step where
  | call (c : Call)
  | clear (tree : FileTree)

/-- The calls of a run that begins with the given files, each with the files of its moment. -/
def calls : FileTree → List Step → List (FileTree × Call)
  | _, [] => []
  | tree, .call c :: steps => (tree, c) :: calls tree steps
  | _, .clear tree :: steps => calls tree steps

/-- The answers of a run on one session. -/
def answers : FileTree → List Step → Session → List Answer
  | _, [], _ => []
  | tree, .call c :: steps, s => (c.run tree s).1 :: answers tree steps (c.run tree s).2
  | _, .clear tree :: steps, s => answers tree steps s.clear

/-- What a session is made from. -/
structure Setup where
  parser : Parser
  settings : Settings := {}
  functionTypes : Infer.FunctionTypes := []
  snapshot : Option Snapshot := none
  library : Library := {}
  tagReaders : List (String × Doc.TagReader) := []

/-- A new session. -/
def Setup.session (u : Setup) : Session where
  reader := { parser := u.parser, settings := u.settings }
  functionTypes := u.functionTypes
  host := match u.snapshot with
    | none => .none
    | some snapshot => .ofSnapshot snapshot
  docs := .new u.tagReaders
  library := u.library

section Runs

variable {u : Setup} {Trees : Node → Prop} {tree : FileTree} {s : Session}

/-- A new session keeps nothing. -/
theorem sound_session {Named : Path → Prop} : Sound u.session Trees tree Named u.session where
  parser_eq := rfl
  settings_eq := rfl
  functionTypes_eq := rfl
  library_eq := rfl
  host := by
    unfold Setup.session
    cases u.snapshot <;> exact ⟨rfl, Memo.holds_empty, Memo.holds_empty⟩
  docs := ⟨rfl, Memo.holds_empty⟩
  types := Memo.holds_empty
  files := Memo.holds_empty
  classes := Memo.holds_empty
  functions := Memo.holds_empty

/-- A session that was cleared is sound for whatever files there are. -/
theorem Sound.clear {b : Session} {Named : Path → Prop} (h : Sound b Trees tree Named s)
    (tree' : FileTree) (Named' : Path → Prop) : Sound b Trees tree' Named' s.clear where
  parser_eq := h.parser_eq
  settings_eq := h.settings_eq
  functionTypes_eq := h.functionTypes_eq
  library_eq := h.library_eq
  host := ⟨h.host.loaded_eq, Memo.holds_clear _, Memo.holds_clear _⟩
  docs := ⟨h.docs.readers_eq, Memo.holds_clear _⟩
  types := Memo.holds_clear _
  files := Memo.holds_clear _
  classes := Memo.holds_clear _
  functions := Memo.holds_clear _

/-- Step by step, a run on a sound session gives what a new session gives for each call alone. -/
theorem answers_of_sound {Named : FileTree → Path → Prop}
    (htrees : Node.Consistent (Node.Among Trees))
    (hone : ∀ (tree : FileTree) p q, Named tree p → Named tree q → tree.resolve p = tree.resolve q →
      p = q) {steps : List Step}
    (hroots : ∀ x ∈ calls tree steps, ∀ root ∈ x.2.roots u.session x.1, Trees root)
    (hpaths : ∀ x ∈ calls tree steps, ∀ p ∈ x.2.paths x.1, Named x.1 p)
    (hs : Sound u.session Trees tree (Named tree) s) :
    answers tree steps s = (calls tree steps).map fun x => (x.2.run x.1 u.session).1 := by
  -- the induction is on the steps; the files of the moment and the session go along
  induction steps generalizing tree s with
  | nil => rfl
  | cons step steps ih =>
    cases step with
    | clear tree' => exact ih hroots hpaths (hs.clear tree' (Named tree'))
    | call c =>
      obtain ⟨hanswer, hsound⟩ := gives_run (b := u.session) (c := c) htrees sound_session
        (hone tree) (hroots (tree, c) List.mem_cons_self) (hpaths (tree, c) List.mem_cons_self) s hs
      have hrest := ih (fun x hx => hroots x (List.mem_cons_of_mem _ hx))
        (fun x hx => hpaths x (List.mem_cons_of_mem _ hx)) hsound
      exact congrArg₂ List.cons hanswer hrest

/-- Do some of the calls name a file by the path, while the files are as given? -/
def NamedBy (made : List (FileTree × Call)) (tree : FileTree) (p : Path) : Prop :=
  ∃ x ∈ made, x.1 = tree ∧ p ∈ x.2.paths x.1

/-- Whatever was asked before, and whether it failed or not, every call gives what it gives alone in
a new session; and a batch gives what each of its targets gives alone. -/
theorem answers_eq_alone (u : Setup) (tree : FileTree) (steps : List Step)
    (htrees : Node.Consistent
      (Node.Among fun root => ∃ x ∈ calls tree steps, root ∈ x.2.roots u.session x.1))
    (hone : ∀ x ∈ calls tree steps, ∀ y ∈ calls tree steps, x.1 = y.1 →
      ∀ p ∈ x.2.paths x.1, ∀ q ∈ y.2.paths y.1, x.1.resolve p = y.1.resolve q → p = q) :
    answers tree steps u.session = (calls tree steps).map (fun x => (x.2.run x.1 u.session).1) ∧
    ∀ files targets, (files, Call.many targets) ∈ calls tree steps →
      (Call.run files (.many targets) u.session).1 = .many (targets.foldlM (fun found target =>
        found.note target (byValue Record.finding (analyze files target) u.session).1) {}) := by
  have hone' : ∀ now p q, NamedBy (calls tree steps) now p → NamedBy (calls tree steps) now q →
      now.resolve p = now.resolve q → p = q := by
    rintro now p q ⟨x, hx, rfl, hp⟩ ⟨y, hy, heq, hq⟩ hresolve
    refine hone x hx y hy heq.symm p hp q hq ?_
    rw [heq]
    exact hresolve
  refine ⟨answers_of_sound htrees hone' (fun x hx root hroot => ⟨x, hx, hroot⟩)
    (fun x hx p hp => ⟨x, hx, rfl, hp⟩) sound_session, ?_⟩
  intro files targets hmem
  refine congrArg Answer.many (gives_analyzeMany htrees sound_session (hone' files)
    (fun t ht root hroot => ?_) (fun t ht p hp => ?_) {} u.session sound_session).1
  · exact ⟨_, hmem, List.mem_flatMap.mpr ⟨t, ht, hroot⟩⟩
  · exact ⟨_, hmem, rfl, List.mem_flatMap.mpr ⟨t, ht, hp⟩⟩

/-! ### A run with changing files -/

/-- A file with a class that has one constant. -/
def sampleFile : List Sketch :=
  Sketch.file [.cls "A" [.blank " ", .constant "X" (.leaf "integer" "1"), .blank " "]]

/-- The literal of the constant. -/
def literalNode : Node :=
  ((Sketch.root sampleFile).preorder.find? (·.kind == "integer")).getD (Sketch.root [])

/-- A loaded class whose source file is known. -/
def sampleClass : ReflectedClass where
  name := "A"
  kind := .cls
  isAbstract := false
  isFinal := true
  readonly := false
  parent := none
  interfaces := []
  traits := []
  methods := []
  properties := []
  constants := []
  docComment := none
  file := some "a.php"
  line := none

/-- A program with one loaded class. -/
def sampleSetup : Setup where
  parser := Sketch.parser [sampleFile]
  snapshot := some ⟨[sampleClass], []⟩

/-- A file of the given parts, in the working directory. -/
def sampleTree (parts : List Sketch) : FileTree :=
  .ofFiles [(⟨"", ["a.php"]⟩, Utf8.encode (Sketch.source parts))]

/-- The trees of the file and of an empty one, and the node of the literal. -/
def sampleRoots : List Node := [Sketch.root sampleFile, Sketch.root [], literalNode]

/-- A run with names of a class in several spellings, a function that is not loaded, a batch with a
target that is missing, and a file that becomes empty. -/
def sampleSteps : List Step :=
  [.call (.cls "\\a"), .call (.file ⟨"", ["a.php"]⟩), .call (.function "f"), .call (.cls "A"),
    .call (.many ["b.php", "./a.php", "A"]), .call (.node literalNode),
    .call (.comment (some "/** x */")), .clear (sampleTree []), .call (.target "a.php"),
    .call (.cls "A")]

/-- The trees of the sample are consistent. -/
theorem sample_consistent : Node.Consistent (Node.Among (· ∈ sampleRoots)) := by
  decide +kernel

theorem sample_roots : ∀ x ∈ calls (sampleTree sampleFile) sampleSteps,
    (∀ root ∈ x.2.roots sampleSetup.session x.1, root ∈ sampleRoots) ∧
    ∀ p ∈ x.2.paths x.1, p = ⟨"", ["a.php"]⟩ := by
  decide +kernel

/-- A run in which the file becomes empty, with a clearing at that moment. -/
theorem answers_eq_alone_changed_file :
    Node.Consistent (Node.Among fun root =>
      ∃ x ∈ calls (sampleTree sampleFile) sampleSteps, root ∈ x.2.roots sampleSetup.session x.1) ∧
    (∀ x ∈ calls (sampleTree sampleFile) sampleSteps,
      ∀ y ∈ calls (sampleTree sampleFile) sampleSteps, x.1 = y.1 →
        ∀ p ∈ x.2.paths x.1, ∀ q ∈ y.2.paths y.1, x.1.resolve p = y.1.resolve q → p = q) ∧
    answers (sampleTree sampleFile) sampleSteps sampleSetup.session =
      (calls (sampleTree sampleFile) sampleSteps).map fun x =>
        (x.2.run x.1 sampleSetup.session).1 := by
  have htrees : Node.Consistent (Node.Among fun root =>
      ∃ x ∈ calls (sampleTree sampleFile) sampleSteps,
        root ∈ x.2.roots sampleSetup.session x.1) :=
    sample_consistent.mono fun root ⟨x, hx, hroot⟩ => (sample_roots x hx).1 root hroot
  have hone : ∀ x ∈ calls (sampleTree sampleFile) sampleSteps,
      ∀ y ∈ calls (sampleTree sampleFile) sampleSteps, x.1 = y.1 →
        ∀ p ∈ x.2.paths x.1, ∀ q ∈ y.2.paths y.1, x.1.resolve p = y.1.resolve q → p = q := by
    intro x hx y hy _ p hp q hq _
    rw [(sample_roots x hx).2 p hp, (sample_roots y hy).2 q hq]
  exact ⟨htrees, hone, (answers_eq_alone sampleSetup _ sampleSteps htrees hone).1⟩

end Runs

end Session

end TypeFacts
