import TypeFacts.Analysis.Build
import TypeFacts.Proofs.Memo.Steady

/-!
# Declarations with kept doc comments

Building a declaration reads doc comments, and the blocks read before are kept by their text. With
any right blocks kept, the block of a comment is what reading it gives (`Doc.Reader.gives_block`),
and so every declaration is built alike (`Analysis.steady_buildFile` and the lemmas before it).
-/

namespace TypeFacts

namespace Doc

/-- The reader has the given tag readers, and keeps for each comment what they read in it. -/
structure Reader.Sound (readers : Table TagReader) (r : Reader) : Prop where
  readers_eq : r.readers = readers
  memo : r.memo.Holds fun text block => block = readBlock readers text

variable {readers : Table TagReader}

/-- The block of a comment, without regard to what is kept. -/
def blockOf (readers : Table TagReader) (comment : Option String) : DocBlock :=
  match comment with
  | none => {}
  | some text => if text.isEmpty then {} else readBlock readers text

theorem Reader.gives_block (comment : Option String) :
    Gives (Reader.Sound readers) (fun r => r.block comment) (blockOf readers comment) := by
  intro r hr
  cases comment with
  | none => exact ⟨rfl, hr⟩
  | some text =>
    unfold Reader.block Reader.parse blockOf
    simp only
    by_cases hempty : text.isEmpty = true
    · rw [if_pos hempty, if_pos hempty]
      exact ⟨rfl, hr⟩
    · rw [if_neg hempty, if_neg hempty]
      cases hfind : r.memo.find? text with
      | some stored => exact ⟨hr.memo text stored hfind, hr⟩
      | none =>
        simp only [hr.readers_eq]
        exact ⟨rfl, rfl, hr.memo.store rfl⟩

end Doc

namespace Analysis

variable {readers : Table Doc.TagReader}

/-- A declaration is built alike whatever right blocks are kept. -/
abbrev SteadyBuild (readers : Table Doc.TagReader) {α : Type} (x : DocM α) : Prop :=
  Steady (Doc.Reader.Sound readers) x.run

/-- The block of a comment is the same whatever comments are kept. -/
theorem gives_docBlock (comment : Option String) :
    Gives (Doc.Reader.Sound readers) (docBlock comment).run
      (.ok (Doc.blockOf readers comment)) := by
  intro r hr
  obtain ⟨hblock, hsound⟩ := Doc.Reader.gives_block comment r hr
  exact ⟨congrArg Except.ok hblock, hsound⟩

theorem steady_docBlock (comment : Option String) : SteadyBuild readers (docBlock comment) :=
  ⟨_, gives_docBlock comment⟩

/-- A function of the source is built alike whatever comments are kept. -/
theorem steady_sourceFunction (name : String) (scope : Scope) (file : String)
    (reflected : Option FunctionDecl) (f : FunctionOutline) :
    SteadyBuild readers (sourceFunction name scope file reflected f) := by
  refine (steady_docBlock _).bind fun _ => Steady.bind ?_ fun ps => ?_
  · exact Steady.mapM fun p _ => steady_pure _
  · exact Steady.bind (steady_pure _) fun _ => steady_pure _

theorem steady_reflectedFunction (f : FunctionDecl) :
    SteadyBuild readers (reflectedFunction f) := by
  refine (steady_docBlock _).bind fun _ => Steady.bind ?_ fun ps => ?_
  · exact Steady.mapM fun p _ => steady_pure _
  · exact Steady.bind (steady_pure _) fun _ => steady_pure _

theorem steady_sourceMethod (cls : ClassOutline) (file : String) (reflected : Option MethodDecl)
    (m : FunctionOutline) : SteadyBuild readers (sourceMethod cls file reflected m) :=
  (steady_sourceFunction _ _ _ _ _).bind fun _ => steady_pure _

theorem steady_reflectedMethod (m : MethodDecl) : SteadyBuild readers (reflectedMethod m) :=
  (steady_reflectedFunction _).bind fun _ => steady_pure _

theorem steady_sourceProperty (scope : Scope) (constructor : Option MethodDecl)
    (reflected : Option PropertyDecl) (p : PropertyOutline) :
    SteadyBuild readers (sourceProperty scope constructor reflected p) :=
  (steady_docBlock _).bind fun _ => Steady.bind (steady_pure _) fun _ => steady_pure _

theorem steady_reflectedProperty (p : PropertyDecl) : SteadyBuild readers (reflectedProperty p) :=
  (steady_docBlock _).bind fun _ => Steady.bind (steady_pure _) fun _ => steady_pure _

/-- Building one after the other, each under a name. -/
theorem steady_mapM_named {α β : Type} {name : α → String} {f : α → DocM β}
    (h : ∀ a, SteadyBuild readers (f a)) (l : List α) :
    SteadyBuild readers (l.mapM fun a => do return (name a, ← f a)) :=
  Steady.mapM fun a _ => (h a).bind fun _ => steady_pure _

/-- The methods of a class are built alike whatever comments are kept. -/
theorem steady_buildMethods (keep : Bool) (cls : ClassOutline) (file : String)
    (reflected : Option ClassDecl) :
    SteadyBuild readers (buildMethods keep cls file reflected) := by
  refine (steady_mapM_named (fun m => steady_sourceMethod _ _ _ m) _).bind fun own => ?_
  cases keep
  · exact steady_pure _
  · exact (steady_mapM_named (fun _ => steady_reflectedMethod _) _).bind fun _ => steady_pure _

/-- So are its properties. -/
theorem steady_buildProperties (keep : Bool) (cls : ClassOutline) (constructor : Option MethodDecl)
    (reflected : Option ClassDecl) :
    SteadyBuild readers (buildProperties keep cls constructor reflected) := by
  refine (steady_mapM_named (fun p => steady_sourceProperty _ _ _ p) _).bind fun own => ?_
  cases keep
  · exact steady_pure _
  · exact (steady_mapM_named (fun _ => steady_reflectedProperty _) _).bind fun _ => steady_pure _

/-- So is the whole class. -/
theorem steady_buildClass (keep : Bool) (file : String) (reflected : Option ClassDecl)
    (cls : ClassOutline) : SteadyBuild readers (buildClass keep file reflected cls) :=
  (steady_buildMethods _ _ _ _).bind fun _ =>
    (steady_buildProperties _ _ _ _).bind fun _ => steady_pure _

theorem steady_reflectedClass (c : ClassDecl) : SteadyBuild readers (reflectedClass c) :=
  (steady_mapM_named (fun _ => steady_reflectedMethod _) _).bind fun _ =>
    (steady_mapM_named (fun _ => steady_reflectedProperty _) _).bind fun _ => steady_pure _

/-- So is the report on a file. -/
theorem steady_buildFile (keep : Bool) (file : String) (faults : List SourceFault)
    (outline : FileOutline) : SteadyBuild readers (buildFile keep file faults outline) :=
  (steady_mapM_named (fun c => steady_buildClass _ _ _ c) _).bind fun _ =>
    (steady_mapM_named (fun f => steady_sourceFunction _ _ _ _ f) _).bind fun _ => steady_pure _

end Analysis

end TypeFacts
