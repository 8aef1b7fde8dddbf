import TypeFacts.Proofs.Analysis.Source
import TypeFacts.Proofs.Declaration.Coherence

/-!
# What the source says prevails

The type of a parameter, of a result or of a property is given by the source where it is declared,
or else where the source's own doc comment has a tag whose type resolves (`Analysis.SourceGives`). A
property that the constructor makes of a parameter is documented there. Whatever is loaded of the
class, such a type is the type in the declaration (`Analysis.buildClass_method`,
`Analysis.buildClass_property`): what reflection knows is asked last, its doc comments are borrowed
only where the source has none, and its members never take the place of members of the source. So
two analyses of a class that differ in reflection alone agree on what the source gives
(`Session.source_types_prevail`).

Of several members with one name only the last is in the declaration.
-/

namespace TypeFacts

namespace Analysis

/-! ### What the source gives -/

/-- The tag gives the type: its text resolves to it. -/
def TagGives (scope : Scope) (tag : Option DocTag) (t : Ty) : Prop :=
  ∃ text, tag.bind DocTag.type = some text ∧ TypeText.resolve scope text = .ok (some t)

/-- The source gives the type: it declares it, or else the tag of its doc comment gives it. -/
def SourceGives (scope : Scope) (declared : Option Ty) (tag : Option DocTag) (t : Ty) : Prop :=
  declared = some t ∨ declared = none ∧ TagGives scope tag t

section Own

variable (readers : Table Doc.TagReader) (scope : Scope)

/-- The source gives the type of a parameter of the function. -/
def ParameterGives (f : FunctionOutline) (p : ParamOutline) (t : Ty) : Prop :=
  SourceGives scope p.declaredType ((Doc.blockOf readers f.docComment).paramTag? p.name) t

/-- The source gives the type of the result of the function. -/
def ReturnGives (f : FunctionOutline) (t : Ty) : Prop :=
  SourceGives scope f.declaredReturn ((Doc.blockOf readers f.docComment).firstTag? "return") t

/-- The tag that documents a property. -/
def varTag? (p : PropertyOutline) : Option DocTag :=
  (Doc.blockOf readers p.docComment).firstTag? "var"

/-- The method is the constructor of the class: its name is the first that makes a method the
constructor, and it is the last method with this name. -/
def IsConstructor (cls : ClassOutline) (m : FunctionOutline) : Prop :=
  LastNamed FunctionOutline.name cls.methods m ∧
    (cls.methods.map FunctionOutline.name).find? (fun n => Text.asciiLower n == "__construct")
      = some m.name

/-- The source gives the type of a property of the class: it declares it, or its doc comment gives
it, or else the constructor makes the property of a parameter whose type it gives. -/
def PropertyGives (cls : ClassOutline) (p : PropertyOutline) (t : Ty) : Prop :=
  SourceGives cls.scope p.declaredType (varTag? readers p) t ∨
    p.declaredType = none ∧ (∀ t', ¬TagGives cls.scope (varTag? readers p) t') ∧
      ∃ m q, IsConstructor cls m ∧ m.parameters.find? (·.name == p.name) = some q ∧
        q.promoted.isSome = true ∧ ParameterGives readers cls.scope m q t

end Own

/-- A documented type comes from a text that is read, in a scope if there is one. -/
theorem docType_eq_some {scope : Option Scope} {text : Option String} {t : Ty} :
    docType scope text = .ok (some t) ↔ ∃ written, text = some written ∧
      scope.elim (TypeText.parse written) (TypeText.resolve · written) = .ok (some t) := by
  have hempty : scope.elim (TypeText.parse "") (TypeText.resolve · "") = .ok none := by
    cases scope <;> cbv
  cases text with
  | none => simp [docType, Text.nonEmpty?]
  | some text =>
    by_cases hne : text = ""
    · subst hne
      simp [docType, Text.nonEmpty?, hempty]
    · cases scope <;> simp [docType, Text.nonEmpty?, hne]

/-- The type of a tag is what the tag gives in the scope. -/
theorem docType_eq_ok {scope : Scope} {tag : Option DocTag} {t : Ty} :
    docType (some scope) (tag.bind DocTag.type) = .ok (some t) ↔ TagGives scope tag t :=
  docType_eq_some

/-- A type that the source gives comes before that of the tag and that of reflection. -/
theorem SourceGives.or_eq {scope : Scope} {declared : Option Ty} {tag : Option DocTag} {t : Ty}
    (h : SourceGives scope declared tag t) {documented : Option Ty}
    (hdoc : docType (some scope) (tag.bind DocTag.type) = .ok documented) (reflected : Option Ty) :
    (declared.or documented).or reflected = some t := by
  rcases h with rfl | ⟨rfl, htag⟩
  · rfl
  · rw [docType_eq_ok.mpr htag] at hdoc
    rw [← Except.ok.inj hdoc]
    rfl

/-! ### Functions and methods -/

variable {readers : Table Doc.TagReader} {r : Doc.Reader}

/-- The declaration has the parameters of the outline, and the types that the source gives. -/
def KeepsFunction (readers : Table Doc.TagReader) (scope : Scope) (f : FunctionOutline)
    (d : FunctionDecl) : Prop :=
  d.name = f.name ∧
  List.Forall₂ (fun p q => q.name = p.name ∧ q.promoted = p.promoted ∧
    ∀ t, ParameterGives readers scope f p t → q.type = some t) f.parameters d.parameters ∧
  ∀ t, ReturnGives readers scope f t → d.returnType = some t

/-- Where the source has no doc comment one may be borrowed; it adds nothing to what the
source gives. -/
theorem SourceGives.borrow {scope : Scope} {declared : Option Ty} {comment : Option String} {t : Ty}
    (tag? : DocBlock → Option DocTag) (htag : tag? {} = none)
    (h : SourceGives scope declared (tag? (Doc.blockOf readers comment)) t)
    (other : Option String) :
    SourceGives scope declared (tag? (Doc.blockOf readers (comment.or other))) t := by
  cases comment with
  | some text => exact h
  | none =>
    refine h.imp_right ?_
    rintro ⟨-, text, htext, -⟩
    rw [Doc.blockOf, htag] at htext
    cases htext

/-- A parameter keeps its name and has the type that the source gives. -/
theorem sourceParameter_type {scope : Scope} {doc : DocBlock} {reflected : Option ParamDecl}
    {p : ParamOutline} {q : ParamDecl} (h : sourceParameter scope doc reflected p = .ok q) :
    q.name = p.name ∧ q.promoted = p.promoted ∧
      ∀ t, SourceGives scope p.declaredType (doc.paramTag? p.name) t → q.type = some t := by
  obtain ⟨documented, hdoc, hq⟩ := bind_eq_ok.mp h
  obtain rfl := Except.ok.inj hq
  exact ⟨rfl, rfl, fun t ht => ht.or_eq hdoc _⟩

/-- A function keeps what the source says of it. -/
theorem sourceFunction_keeps {scope : Scope} {file : String} {reflected : Option FunctionDecl}
    {f : FunctionOutline} {d : FunctionDecl} (hr : Doc.Reader.Sound readers r)
    (h : ((sourceFunction f.name scope file reflected f).run r).1 = .ok d) :
    KeepsFunction readers scope f d := by
  obtain ⟨doc, r₁, hdoc, hr₁, h⟩ := (gives_docBlock _).exists_of_bind hr h
  obtain rfl := Except.ok.inj hdoc
  obtain ⟨parameters, r₂, hparameters, hr₂, h⟩ :=
    (Gives.mapM fun p _ => gives_pure _).exists_of_bind hr₁ h
  obtain ⟨documented, r₃, hdocumented, -, h⟩ := (gives_pure _).exists_of_bind hr₂ h
  obtain rfl := Except.ok.inj h
  refine ⟨rfl, (forall₂_of_mapM hparameters).imp fun p q hq => ?_, fun t ht => ?_⟩
  · obtain ⟨hname, hpromoted, htype⟩ := sourceParameter_type hq
    exact ⟨hname, hpromoted, fun t ht => htype t (ht.borrow (·.paramTag? p.name) rfl _)⟩
  · exact (ht.borrow (·.firstTag? "return") rfl _).or_eq hdocumented _

/-- So does a method, with its visibility, its modifiers and its class. -/
theorem sourceMethod_eq_ok {cls : ClassOutline} {file : String} {reflected : Option MethodDecl}
    {m : FunctionOutline} {d : MethodDecl} (hr : Doc.Reader.Sound readers r)
    (h : ((sourceMethod cls file reflected m).run r).1 = .ok d) :
    KeepsFunction readers cls.scope m d.toFunctionDecl ∧ d.visibility = m.visibility ∧
      d.modifiers = m.modifiers := by
  obtain ⟨f, r₁, hf, -, h⟩ := ((steady_sourceFunction _ _ _ _ _).gives hr).exists_of_bind hr h
  obtain rfl := Except.ok.inj h
  exact ⟨sourceFunction_keeps hr hf, rfl, rfl⟩

/-! ### Members of reflection -/

/-- The parameter up to what a doc comment says of it. -/
def SameParameter (p q : ParamDecl) : Prop :=
  q = { p with type := q.type, description := q.description }

/-- The method up to what its doc comment says. -/
def SameMethod (m d : MethodDecl) : Prop :=
  List.Forall₂ SameParameter m.parameters d.parameters ∧
    d = { m with parameters := d.parameters, returnType := d.returnType, throws := d.throws }

theorem SameMethod.name_eq {m d : MethodDecl} (h : SameMethod m d) : d.name = m.name := by
  obtain ⟨-, hd⟩ := h
  rw [hd]

/-- A reflected parameter stays the same but for what a doc comment says of it. -/
theorem reflectedParameter_eq_ok {doc : DocBlock} {p q : ParamDecl}
    (h : reflectedParameter doc p = .ok q) : SameParameter p q := by
  unfold reflectedParameter at h
  split at h
  · obtain rfl := Except.ok.inj h
    rfl
  · obtain ⟨documented, -, h⟩ := bind_eq_ok.mp h
    obtain rfl := Except.ok.inj h
    rfl

/-- A reflected method stays the same but for what its doc comment says. -/
theorem reflectedMethod_eq_ok {m d : MethodDecl} (hr : Doc.Reader.Sound readers r)
    (h : ((reflectedMethod m).run r).1 = .ok d) : SameMethod m d := by
  obtain ⟨f, r₁, hf, -, h⟩ := ((steady_reflectedFunction _).gives hr).exists_of_bind hr h
  obtain ⟨doc, r₂, -, hr₂, hf⟩ := (gives_docBlock _).exists_of_bind hr hf
  obtain ⟨parameters, r₃, hparameters, hr₃, hf⟩ :=
    (Gives.mapM fun p _ => gives_pure _).exists_of_bind hr₂ hf
  obtain ⟨documented, r₄, -, -, hf⟩ := (gives_pure _).exists_of_bind hr₃ hf
  obtain rfl := Except.ok.inj hf
  obtain rfl := Except.ok.inj h
  exact ⟨(forall₂_of_mapM hparameters).imp fun p q hq => reflectedParameter_eq_ok hq, rfl⟩

/-! ### The methods of a class -/

/-- Reflection lists methods under their names. -/
def ListsMethods (reflected : Option ClassDecl) : Prop :=
  ∀ c, reflected = some c → ∀ e ∈ c.methods.entries, e.2.name = e.1

/-- Methods are looked up by their names in lower case. -/
theorem ListsMethods.mem_ignoringCase {reflected : Option ClassDecl} (h : ListsMethods reflected)
    {e : String × MethodDecl} (he : e ∈ (methodsIgnoringCase reflected).entries) :
    e.1 = Text.lower e.2.name := by
  obtain ⟨e', he', rfl⟩ := List.mem_map.mp (Table.mem_of_mem_entries_ofList he)
  cases reflected with
  | none => cases he'
  | some c => exact congrArg Text.lower (h c rfl e' he').symm

/-- A method of reflection that is not passed over has a new name. -/
theorem ListsMethods.name_not_mem {reflected : Option ClassDecl} (h : ListsMethods reflected)
    {own : Table MethodDecl} {e : String × MethodDecl}
    (he : e ∈ (methodsIgnoringCase reflected).entries)
    (hnew : (!(own.names.map Text.lower).contains e.1) = true) : e.2.name ∉ own.names := by
  intro hmem
  have hlower : e.1 ∈ own.names.map Text.lower := by
    rw [h.mem_ignoringCase he]
    exact List.mem_map_of_mem hmem
  simp [hlower] at hnew

variable {keep : Bool} {cls : ClassOutline} {file : String} {reflected : Option ClassDecl}
  {methods : Table MethodDecl}

/-- The methods of the source, each built in the state `r`. -/
abbrev sourceMethods (r : Doc.Reader) (cls : ClassOutline) (file : String)
    (reflected : Option ClassDecl) : Except Ty.Fault (List (String × MethodDecl)) :=
  cls.methods.mapM fun m => do return (m.name, ← ((sourceMethod cls file
    ((methodsIgnoringCase reflected).get? (Text.lower m.name)) m).run r).1)

/-- Building the methods builds those of the source in a row, and where members of reflection are
kept, those that it lists under other names. -/
theorem buildMethods_eq_ok (hr : Doc.Reader.Sound readers r)
    (h : ((buildMethods keep cls file reflected).run r).1 = .ok methods) : ∃ own,
      sourceMethods r cls file reflected = .ok own ∧
      if keep then ∃ others,
        ((methodsIgnoringCase reflected).entries.filter fun e =>
          !((Table.ofList own).names.map Text.lower).contains e.1).mapM (fun e => do
            return (e.2.name, ← ((reflectedMethod e.2).run r).1)) = .ok others ∧
        methods = (Table.ofList own).insertAll others
      else methods = Table.ofList own := by
  obtain ⟨own, r₁, hown, hr₁, h⟩ := (gives_mapM_named _ (fun m =>
    (steady_sourceMethod _ _ _ m).gives hr) cls.methods).exists_of_bind hr h
  refine ⟨own, hown, ?_⟩
  cases keep with
  | false => exact (Except.ok.inj h).symm
  | true =>
    obtain ⟨others, r₂, hothers, -, h⟩ :=
      (gives_mapM_named (fun e : String × MethodDecl => e.2.name)
        (fun e => (steady_reflectedMethod e.2).gives hr) _).exists_of_bind hr₁ h
    exact ⟨others, hothers, (Except.ok.inj h).symm⟩

/-- The methods are those of the source, and then some that reflection lists under other names. -/
theorem exists_of_buildMethods (hr : Doc.Reader.Sound readers r) (hlists : ListsMethods reflected)
    (h : ((buildMethods keep cls file reflected).run r).1 = .ok methods) : ∃ own others,
      sourceMethods r cls file reflected = .ok own ∧
      methods = Table.ofList (own ++ others) ∧
      ∀ e ∈ others, e.2.name = e.1 ∧ ∀ m ∈ cls.methods, m.name ≠ e.1 := by
  obtain ⟨own, hown, h⟩ := buildMethods_eq_ok hr h
  cases keep with
  | false =>
    obtain rfl := h
    refine ⟨own, [], hown, ?_, fun e he => ?_⟩
    · rw [List.append_nil]
    · cases he
  | true =>
    obtain ⟨others, hothers, rfl⟩ := h
    refine ⟨own, others, hown, Table.insertAll_ofList own others, fun e he => ?_⟩
    obtain ⟨known, hknown, he⟩ := exists_of_mem_mapM hothers he
    obtain ⟨d, hd, he⟩ := bind_eq_ok.mp he
    obtain rfl := Except.ok.inj he
    obtain ⟨hknown, hnew⟩ := List.mem_filter.mp hknown
    refine ⟨(reflectedMethod_eq_ok hr hd).name_eq, fun m hm hname => ?_⟩
    have hmem : m.name ∈ (Table.ofList own).names :=
      (mem_names_of_mapM hown m.name).mpr (List.mem_map_of_mem hm)
    rw [hname] at hmem
    exact hlists.name_not_mem hknown hnew hmem

/-- Of the methods of the source with one name, the last is kept. -/
theorem buildMethods_method (hr : Doc.Reader.Sound readers r) (hlists : ListsMethods reflected)
    (h : ((buildMethods keep cls file reflected).run r).1 = .ok methods) {m : FunctionOutline}
    (hm : LastNamed FunctionOutline.name cls.methods m) :
    ∃ d, methods.get? m.name = some d ∧ KeepsFunction readers cls.scope m d.toFunctionDecl := by
  obtain ⟨own, others, hown, rfl, hothers⟩ := exists_of_buildMethods hr hlists h
  obtain ⟨d, hd, hget⟩ := get?_of_lastNamed hown hm
  refine ⟨d, ?_, (sourceMethod_eq_ok hr hd).1⟩
  rw [← Table.insertAll_ofList, Table.get?_insertAll_eq_some]
  refine Or.inr ⟨fun hmem => ?_, hget⟩
  obtain ⟨e, he, hname⟩ := List.mem_map.mp hmem
  exact (hothers e he).2 m hm.mem hname.symm

/-- The constructor is found among the methods. -/
theorem buildMethods_constructor (hr : Doc.Reader.Sound readers r) (hlists : ListsMethods reflected)
    (h : ((buildMethods keep cls file reflected).run r).1 = .ok methods) {m : FunctionOutline}
    (hm : IsConstructor cls m) {d : MethodDecl} (hd : methods.get? m.name = some d) :
    methods.values.find? (·.isConstructor) = some d := by
  obtain ⟨own, others, hown, rfl, hothers⟩ := exists_of_buildMethods hr hlists h
  have hnames : ∀ e ∈ (Table.ofList (own ++ others)).entries, e.2.name = e.1 := by
    intro e he
    rcases List.mem_append.mp (Table.mem_of_mem_entries_ofList he) with he | he
    · obtain ⟨m, -, he⟩ := exists_of_mem_mapM hown he
      obtain ⟨d, hd, he⟩ := bind_eq_ok.mp he
      obtain rfl := Except.ok.inj he
      exact (sourceMethod_eq_ok hr hd).1.1
    · exact (hothers e he).1
  have hfirst : (Table.ofList (own ++ others)).names.find?
      (fun n => Text.asciiLower n == "__construct") = some m.name := by
    rw [Table.ofList, Table.find?_names_insertAll, List.map_append, ← names_of_mapM hown]
    show ((cls.methods.map FunctionOutline.name ++ others.map Prod.fst).find? _) = _
    rw [List.find?_append, hm.2]
    rfl
  exact Table.find?_values hnames hfirst hd

/-! ### The properties of a class -/

/-- At the same index related lists have related members. -/
theorem getElem?_of_forall₂ {α β : Type} {R : α → β → Prop} {xs : List α} {ys : List β}
    (h : List.Forall₂ R xs ys) {i : Nat} {x : α} (hx : xs[i]? = some x) :
    ∃ y, ys[i]? = some y ∧ R x y := by
  obtain ⟨hi, rfl⟩ := List.getElem?_eq_some_iff.mp hx
  have hi' : i < ys.length := h.length_eq ▸ hi
  exact ⟨ys[i], List.getElem?_eq_getElem hi', h.get hi hi'⟩

theorem find?_of_forall₂ {α β : Type} {R : α → β → Prop} {p : α → Bool} {q : β → Bool} {xs : List α}
    {ys : List β} (h : List.Forall₂ R xs ys) (hpq : ∀ x y, R x y → p x = q y) {x : α}
    (hx : xs.find? p = some x) : ∃ y, ys.find? q = some y ∧ R x y := by
  induction h with
  | nil => cases hx
  | @cons a b _ _ hab _ ih =>
    cases ha : p a with
    | true =>
      rw [List.find?_cons_of_pos ha] at hx
      obtain rfl := Option.some.inj hx
      exact ⟨b, List.find?_cons_of_pos (hpq a b hab ▸ ha), hab⟩
    | false =>
      rw [List.find?_cons_of_neg (by simp [ha])] at hx
      rw [List.find?_cons_of_neg (by simp [← hpq a b hab, ha])]
      exact ih hx

/-- The property that the constructor makes of a parameter has its type. -/
theorem promotedType_of_keeps {scope : Scope} {m : FunctionOutline} {d : MethodDecl}
    (hkeeps : KeepsFunction readers scope m d.toFunctionDecl) {name : String} {q : ParamOutline}
    (hq : m.parameters.find? (·.name == name) = some q) (hpromoted : q.promoted.isSome = true)
    {t : Ty} (ht : ParameterGives readers scope m q t) : promotedType (some d) name = some t := by
  obtain ⟨q', hfind, -, hsame, htype⟩ := find?_of_forall₂ hkeeps.2.1
    (fun x y hxy => congrArg (· == name) hxy.1.symm) hq
  have hparameter : d.parameter? name = some q' := hfind
  obtain ⟨v, hv⟩ := Option.isSome_iff_exists.mp hpromoted
  simp only [promotedType, Option.bind_some, hparameter, hsame, hv]
  exact htype t ht

/-- The type of a property is the declared one, else that of its comment, else that of the
constructor, and that of reflection only if the source gives none. -/
theorem sourceProperty_eq_ok {scope : Scope} {constructor : Option MethodDecl}
    {reflected : Option PropertyDecl} {p : PropertyOutline} {d : PropertyDecl}
    (hr : Doc.Reader.Sound readers r)
    (h : ((sourceProperty scope constructor reflected p).run r).1 = .ok d) :
    (∃ own, docType (some scope) ((varTag? readers p).bind DocTag.type) = .ok own ∧
      d.type = (p.declaredType.or (own.or (promotedType constructor p.name))).or
        (reflected.bind (·.type))) ∧
    d.visibility = p.visibility ∧ d.isStatic = p.isStatic ∧ d.readonly = p.readonly := by
  obtain ⟨doc, r₁, hdoc, hr₁, h⟩ := (gives_docBlock _).exists_of_bind hr h
  obtain rfl := Except.ok.inj hdoc
  obtain ⟨own, r₂, hown, -, h⟩ := (gives_pure _).exists_of_bind hr₁ h
  obtain rfl := Except.ok.inj h
  exact ⟨⟨own, hown, rfl⟩, rfl, rfl, rfl⟩

/-- The constructor of the declaration gives the types that the source gives for its parameters. -/
def Promotes (readers : Table Doc.TagReader) (cls : ClassOutline)
    (constructor : Option MethodDecl) :
    Prop :=
  ∀ m q t name, IsConstructor cls m → m.parameters.find? (·.name == name) = some q →
    q.promoted.isSome = true → ParameterGives readers cls.scope m q t →
      promotedType constructor name = some t

/-- A property has the type that the source gives. -/
theorem sourceProperty_keeps {constructor : Option MethodDecl}
    (hconstructor : Promotes readers cls constructor) {other : Option PropertyDecl}
    {p : PropertyOutline} {d : PropertyDecl}
    (hr : Doc.Reader.Sound readers r)
    (h : ((sourceProperty cls.scope constructor other p).run r).1 = .ok d) {t : Ty}
    (ht : PropertyGives readers cls p t) : d.type = some t := by
  obtain ⟨own, hown, htype⟩ := (sourceProperty_eq_ok hr h).1
  rw [htype]
  rcases ht with (hdeclared | ⟨hdeclared, htag⟩) | ⟨hdeclared, hnone, m, q, hm, hq, hpromoted, ht⟩
  · rw [hdeclared]
    rfl
  · rw [docType_eq_ok.mpr htag] at hown
    rw [hdeclared, ← Except.ok.inj hown]
    rfl
  · have hown' : own = none := by
      refine Option.eq_none_iff_forall_ne_some.mpr fun t' ht' => hnone t' (docType_eq_ok.mp ?_)
      rw [hown, ht']
    rw [hdeclared, hown', hconstructor m q t p.name hm hq hpromoted ht]
    rfl

/-- The properties of the source, each built in the state `r`. -/
abbrev sourceProperties (r : Doc.Reader) (cls : ClassOutline) (constructor : Option MethodDecl)
    (reflected : Option ClassDecl) : Except Ty.Fault (List (String × PropertyDecl)) :=
  cls.properties.mapM fun p => do return (p.name, ← ((sourceProperty cls.scope constructor
    (reflected.bind fun c => c.properties.get? p.name) p).run r).1)

/-- Building the properties builds those of the source in a row, and where members of reflection are
kept, those that it lists under other names. -/
theorem buildProperties_eq_ok {constructor : Option MethodDecl} {properties : Table PropertyDecl}
    (hr : Doc.Reader.Sound readers r)
    (h : ((buildProperties keep cls constructor reflected).run r).1 = .ok properties) : ∃ own,
      sourceProperties r cls constructor reflected = .ok own ∧
      if keep then ∃ others,
        (((reflected.map (·.properties.entries)).getD []).filter fun e =>
          !(Table.ofList own).contains e.1).mapM (fun e => do
            return (e.1, ← ((reflectedProperty e.2).run r).1)) = .ok others ∧
        properties = (Table.ofList own).insertAll others
      else properties = Table.ofList own := by
  obtain ⟨own, r₁, hown, hr₁, h⟩ := (gives_mapM_named _ (fun p =>
    (steady_sourceProperty _ _ _ p).gives hr) cls.properties).exists_of_bind hr h
  refine ⟨own, hown, ?_⟩
  cases keep with
  | false => exact (Except.ok.inj h).symm
  | true =>
    obtain ⟨others, r₂, hothers, -, h⟩ :=
      (gives_mapM_named (fun e : String × PropertyDecl => e.1)
        (fun e => (steady_reflectedProperty e.2).gives hr) _).exists_of_bind hr₁ h
    exact ⟨others, hothers, (Except.ok.inj h).symm⟩

/-- Of the properties of the source with one name, the last is kept. -/
theorem buildProperties_property {constructor : Option MethodDecl} {properties : Table PropertyDecl}
    (hr : Doc.Reader.Sound readers r) (hconstructor : Promotes readers cls constructor)
    (h : ((buildProperties keep cls constructor reflected).run r).1 = .ok properties)
    {p : PropertyOutline} (hp : LastNamed PropertyOutline.name cls.properties p) :
    ∃ d, properties.get? p.name = some d ∧ ∀ t, PropertyGives readers cls p t →
      d.type = some t := by
  obtain ⟨own, hown, h⟩ := buildProperties_eq_ok hr h
  obtain ⟨d, hd, hget⟩ := get?_of_lastNamed hown hp
  refine ⟨d, ?_, fun t ht => sourceProperty_keeps hconstructor hr hd ht⟩
  cases keep with
  | false =>
    obtain rfl := h
    exact hget
  | true =>
    obtain ⟨others, hothers, rfl⟩ := h
    refine Table.get?_insertAll_eq_some.mpr (Or.inr ⟨fun hmem => ?_, hget⟩)
    rw [← names_of_mapM hothers] at hmem
    obtain ⟨e, he, hname⟩ := List.mem_map.mp hmem
    have hnew := (List.mem_filter.mp he).2
    simp [Table.contains, hname, hget] at hnew

/-! ### Classes -/

variable {decl : ClassDecl}

/-- A class is built from its methods, and from properties that ask the constructor among them. -/
theorem buildClass_eq_ok (hr : Doc.Reader.Sound readers r)
    (h : ((buildClass keep file reflected cls).run r).1 = .ok decl) :
    ((buildMethods keep cls file reflected).run r).1 = .ok decl.methods ∧
      ((buildProperties keep cls (decl.methods.values.find? (·.isConstructor)) reflected).run r).1
        = .ok decl.properties ∧
      decl.constants = buildConstants keep cls reflected := by
  obtain ⟨methods, r₁, hmethods, hr₁, h⟩ :=
    ((steady_buildMethods _ _ _ _).gives hr).exists_of_bind hr h
  obtain ⟨properties, r₂, hproperties, -, h⟩ :=
    ((steady_buildProperties _ _ _ _).gives hr).exists_of_bind hr₁ h
  obtain rfl := Except.ok.inj h
  exact ⟨hmethods, hproperties, rfl⟩

/-- What a class is called, and where it stands, is up to the source. -/
theorem buildClass_header (h : ((buildClass keep file reflected cls).run r).1 = .ok decl) :
    decl.name = cls.name ∧ decl.shortName = cls.shortName ∧ decl.ns = cls.ns ∧
      decl.kind = cls.kind ∧
      decl.modifiers = cls.modifiers ∧ decl.file = some file := by
  obtain ⟨methods, r₁, -, h⟩ := exists_of_run_bind h
  obtain ⟨properties, r₂, -, h⟩ := exists_of_run_bind h
  obtain rfl := Except.ok.inj h
  exact ⟨rfl, rfl, rfl, rfl, rfl, rfl⟩

/-- Of the methods of a class with one name the last is in the declaration, with all types that the
source gives. -/
theorem buildClass_method (hr : Doc.Reader.Sound readers r) (hlists : ListsMethods reflected)
    (h : ((buildClass keep file reflected cls).run r).1 = .ok decl) {m : FunctionOutline}
    (hm : LastNamed FunctionOutline.name cls.methods m) :
    ∃ d, decl.methods.get? m.name = some d ∧ KeepsFunction readers cls.scope m d.toFunctionDecl :=
  buildMethods_method hr hlists (buildClass_eq_ok hr h).1 hm

/-- Of the properties of a class with one name the last is in the declaration, with the type that
the source gives. -/
theorem buildClass_property (hr : Doc.Reader.Sound readers r) (hlists : ListsMethods reflected)
    (h : ((buildClass keep file reflected cls).run r).1 = .ok decl) {p : PropertyOutline}
    (hp : LastNamed PropertyOutline.name cls.properties p) :
    ∃ d, decl.properties.get? p.name = some d ∧
      ∀ t, PropertyGives readers cls p t → d.type = some t := by
  obtain ⟨hmethods, hproperties, -⟩ := buildClass_eq_ok hr h
  have hconstructor : Promotes readers cls (decl.methods.values.find? (·.isConstructor)) := by
    intro m q t name hm hq hpromoted ht
    obtain ⟨d, hd, hkeeps⟩ := buildMethods_method hr hlists hmethods hm.1
    rw [buildMethods_constructor hr hlists hmethods hm hd]
    exact promotedType_of_keeps hkeeps hq hpromoted ht
  exact buildProperties_property hr hconstructor hproperties hp

end Analysis

/-! ### Reflection -/

/-- A reflected class lists its methods under their names. -/
theorem Host.listsMethods_makeClass {h : Host} {name : String} {decl : ClassDecl}
    (hdecl : h.makeClass name = .ok decl) : Analysis.ListsMethods (some decl) := by
  intro c hc
  obtain rfl := Option.some.inj hc
  exact (h.isReflected_makeClass name decl hdecl).coherent.methods

namespace Session

/-- What is loaded of a class lists its methods under their names, and only the memo of the
host changes. -/
theorem loadedClass_spec {s s' : Session} {name : String} {reflected : Option ClassDecl}
    (hs : Host.Sound s.host s.host) (hloaded : s.host.isLoaded name = true)
    (h : (loadedClass name).run s = (.ok reflected, s')) :
    Analysis.ListsMethods reflected ∧ reflected.isSome = true ∧
      ∃ host, host.loaded = s.host.loaded ∧ s' = { s with host := host } := by
  obtain ⟨hvalue, hsound⟩ := Host.gives_entity s.host name s.host hs
  have hrun : (hostClass name).run s = ((s.host.makeClass name).mapError .host,
      { s with host := (s.host.entity name).2 }) := by
    rw [← hvalue, hostClass_eq]
    rfl
  rw [loadedClass_run hloaded, hrun] at h
  cases hmake : s.host.makeClass name with
  | error e =>
    rw [hmake] at h
    cases (Prod.ext_iff.mp h).1
  | ok decl =>
    rw [hmake] at h
    obtain ⟨hreflected, hstate⟩ := Prod.ext_iff.mp h
    obtain rfl := Except.ok.inj hreflected
    exact ⟨Host.listsMethods_makeClass hmake, rfl, _, hsound.loaded_eq, hstate.symm⟩

variable {tree : FileTree} {path : Path} {name : String} {file : Option Path}

/-- A session with the snapshot loads the class, takes the path for its source file, and gives
the declaration. -/
structure Setup.Declares (u : Setup) (tree : FileTree) (name : String) (file : Option Path)
    (path : Path) (snapshot : Snapshot) (decl : ClassDecl) : Prop where
  loads : (Host.ofSnapshot snapshot).isLoaded name = true
  source : file.or (if u.settings.followSource then (Host.ofSnapshot snapshot).sourceFile name
    else none) = some path
  analysis : (byValue Stored.value (analyzeClass tree name file)
    { u with snapshot := some snapshot }.session).1 = .ok decl

/-- The declaration is built from the class of the source, with something that is loaded. -/
theorem Setup.Declares.exists_buildClass {u : Setup} {snapshot : Snapshot} {decl : ClassDecl}
    {outline : FileOutline} {faults : List SourceFault} {cls : ClassOutline}
    (h : u.Declares tree name file path snapshot decl)
    (hread : ((readSource tree path).run u.session).1 = .ok (outline, faults))
    (hcls : outline.findClass? name = some cls) : ∃ reflected, Analysis.ListsMethods reflected ∧
      ((Analysis.buildClass u.settings.keepReflected path.text reflected cls).run u.session.docs).1
        = .ok decl := by
  have hdecl := analyzeClass_eq_ok.mp h.analysis
  rcases hrun : (loadedClass name).run { u with snapshot := some snapshot }.session
    with ⟨t | reflected, s'⟩
  · rw [classDecl, run_bind_apply, hrun] at hdecl
    cases hdecl
  · have hsound : Host.Sound (Host.ofSnapshot snapshot) (Host.ofSnapshot snapshot) :=
      ⟨rfl, Memo.holds_empty, Memo.holds_empty⟩
    obtain ⟨hlists, hsome, host, hhost, rfl⟩ := loadedClass_spec hsound h.loads hrun
    have hsource : classSource { u.session with host := host } name file reflected = some path := by
      have hsame : host.sourceFile name = (Host.ofSnapshot snapshot).sourceFile name := by
        simp only [Host.sourceFile, Host.class?, Host.function?, hhost]
        rfl
      rw [← h.source, classSource, hsome, hsame]
      rfl
    have hread' : ((readSource tree path).run { u.session with host := host }).1
        = .ok (outline, faults) := by rw [readSource_withHost, hread]
    rw [classDecl_of_source hrun hsource hread' hcls, mapError_eq_ok] at hdecl
    exact ⟨reflected, hlists, hdecl⟩

/-- Two analyses of a class that its source declares, with any two snapshots that load it, have the
types that the source gives, and so agree on them. -/
theorem source_types_prevail (u : Setup) {snapshot₁ snapshot₂ : Snapshot} {decl₁ decl₂ : ClassDecl}
    {outline : FileOutline} {faults : List SourceFault} {cls : ClassOutline}
    (hread : ((readSource tree path).run u.session).1 = .ok (outline, faults))
    (hcls : outline.findClass? name = some cls)
    (h₁ : u.Declares tree name file path snapshot₁ decl₁)
    (h₂ : u.Declares tree name file path snapshot₂ decl₂) :
    (∀ m, LastNamed FunctionOutline.name cls.methods m → ∃ m₁ m₂,
      decl₁.methods.get? m.name = some m₁ ∧ decl₂.methods.get? m.name = some m₂ ∧
      (∀ (i : Nat) (p : ParamOutline), m.parameters[i]? = some p → ∃ p₁ p₂ : ParamDecl,
        m₁.parameters[i]? = some p₁ ∧ m₂.parameters[i]? = some p₂ ∧
        ∀ t, Analysis.ParameterGives u.session.docs.readers cls.scope m p t →
          p₁.type = some t ∧ p₂.type = some t) ∧
      ∀ t, Analysis.ReturnGives u.session.docs.readers cls.scope m t →
        m₁.returnType = some t ∧ m₂.returnType = some t) ∧
    ∀ p, LastNamed PropertyOutline.name cls.properties p → ∃ p₁ p₂ : PropertyDecl,
      decl₁.properties.get? p.name = some p₁ ∧ decl₂.properties.get? p.name = some p₂ ∧
      ∀ t, Analysis.PropertyGives u.session.docs.readers cls p t →
        p₁.type = some t ∧ p₂.type = some t := by
  have hdocs : Doc.Reader.Sound u.session.docs.readers u.session.docs := ⟨rfl, Memo.holds_empty⟩
  obtain ⟨reflected₁, hlists₁, hbuild₁⟩ := h₁.exists_buildClass hread hcls
  obtain ⟨reflected₂, hlists₂, hbuild₂⟩ := h₂.exists_buildClass hread hcls
  constructor
  · intro m hm
    obtain ⟨m₁, hm₁, -, hparams₁, hreturn₁⟩ := Analysis.buildClass_method hdocs hlists₁ hbuild₁ hm
    obtain ⟨m₂, hm₂, -, hparams₂, hreturn₂⟩ := Analysis.buildClass_method hdocs hlists₂ hbuild₂ hm
    refine ⟨m₁, m₂, hm₁, hm₂, fun i p hp => ?_, fun t ht => ⟨hreturn₁ t ht, hreturn₂ t ht⟩⟩
    obtain ⟨p₁, hp₁, -, -, htype₁⟩ := Analysis.getElem?_of_forall₂ hparams₁ hp
    obtain ⟨p₂, hp₂, -, -, htype₂⟩ := Analysis.getElem?_of_forall₂ hparams₂ hp
    exact ⟨p₁, p₂, hp₁, hp₂, fun t ht => ⟨htype₁ t ht, htype₂ t ht⟩⟩
  · intro p hp
    obtain ⟨p₁, hp₁, htype₁⟩ := Analysis.buildClass_property hdocs hlists₁ hbuild₁ hp
    obtain ⟨p₂, hp₂, htype₂⟩ := Analysis.buildClass_property hdocs hlists₂ hbuild₂ hp
    exact ⟨p₁, p₂, hp₁, hp₂, fun t ht => ⟨htype₁ t ht, htype₂ t ht⟩⟩

/-! ### A class with a promoted property and a repeated one -/

/-- A constructor that makes a property of its first parameter. -/
def constructorSketch : Sketch :=
  .rule "method_declaration" "" [.token "function", .blank " ", .leaf "name" "__construct" "name",
    .rule "formal_parameters" "parameters" [.token "(",
      .rule "property_promotion_parameter" "" [.visible "visibility", .blank " ", .named "n"],
      .token ",", .blank " ",
      .rule "simple_parameter" "" (Sketch.typed "string" ++ [.named "s"]), .token ")"],
    .blank " ", .rule "compound_statement" "body" [.token "\x7b", .token "\x7d"]]

/-- A file with a class that has the constructor, with a doc comment, and a property that is
declared with a type and once more without. -/
def typedFile : List Sketch :=
  Sketch.file [.cls "A" [.blank " ", .leaf "comment" "/** @param int $n */", .blank " ",
    constructorSketch, .blank " ", .property (Sketch.typed "int") "x", .blank " ",
    .property [] "x", .blank " "]]

/-- A session that knows the file. -/
def typedSetup : Setup where
  parser := Sketch.parser [typedFile]

/-- The outline of the constructor. -/
def constructorOutline : FunctionOutline where
  name := "__construct"
  qualifiedName := "A::__construct"
  parameters := [{ name := "n", position := 0, promoted := some .pub },
    { name := "s", position := 1, declaredType := some (.scalar .string false) }]
  docComment := some "/** @param int $n */"
  line := some 2

/-- The outline of the class. -/
def typedClass : ClassOutline where
  name := "A"
  shortName := "A"
  ns := ""
  kind := .cls
  methods := [constructorOutline]
  properties := [{ name := "n" }, { name := "x", declaredType := some (.scalar .int false) },
    { name := "x" }]
  line := some 2

/-- A reflected property that holds texts. -/
def textProperty (name : String) : ReflectedProperty where
  name := name
  visibility := .pub
  isStatic := false
  readonly := false
  type := some (.named (some "string") false)
  default := none
  docComment := none

/-- A snapshot in which all properties of the class hold texts. -/
def textSnapshot : Snapshot :=
  ⟨[{ sampleClass with properties := [textProperty "n", textProperty "x"] }], []⟩

/-- A snapshot that knows of no property. -/
def bareSnapshot : Snapshot := ⟨[sampleClass], []⟩

/-- The outline of the class, the type of the repeated property with each of the snapshots, and the
type that the tag of the constructor gives. -/
theorem typedSetup_values :
    ((readSource (sampleTree typedFile) ⟨"", ["a.php"]⟩).run typedSetup.session).1.map
      (fun r => r.1.findClass? "A") = .ok (some typedClass) ∧
    (byValue Stored.value (analyzeClass (sampleTree typedFile) "A" none)
      { typedSetup with snapshot := some textSnapshot }.session).1.map
        (fun d => (d.properties.get? "x").map (·.type))
          = .ok (some (some (.scalar .string false))) ∧
    (byValue Stored.value (analyzeClass (sampleTree typedFile) "A" none)
      { typedSetup with snapshot := some bareSnapshot }.session).1.map
        (fun d => (d.properties.get? "x").map (·.type)) = .ok (some none) ∧
    ((Doc.blockOf typedSetup.session.docs.readers
      (some "/** @param int $n */")).paramTag? "n").bind DocTag.type = some "int" ∧
    TypeText.resolve {} "int" = .ok (some (.scalar .int false)) := by
  decide +kernel

/-- The file of the sample is read, and the class is found in it. -/
theorem typedSetup_readSource : ∃ outline faults,
    ((readSource (sampleTree typedFile) ⟨"", ["a.php"]⟩).run typedSetup.session).1
      = .ok (outline, faults) ∧
    outline.findClass? "A" = some typedClass := by
  obtain ⟨⟨outline, faults⟩, hread, hcls⟩ := exists_of_map_eq_ok typedSetup_values.1
  exact ⟨outline, faults, hread, hcls⟩

/-- Both snapshots declare the class, with the types of the source. -/
theorem typedSetup_declares : ∃ decl₁ decl₂,
    typedSetup.Declares (sampleTree typedFile) "A" none ⟨"", ["a.php"]⟩ textSnapshot decl₁ ∧
    typedSetup.Declares (sampleTree typedFile) "A" none ⟨"", ["a.php"]⟩ bareSnapshot decl₂ ∧
    (decl₁.properties.get? "x").map (·.type) = some (some (.scalar .string false)) ∧
    (decl₂.properties.get? "x").map (·.type) = some none := by
  obtain ⟨-, htext, hbare, -⟩ := typedSetup_values
  obtain ⟨decl₁, h₁, hx₁⟩ := exists_of_map_eq_ok htext
  obtain ⟨decl₂, h₂, hx₂⟩ := exists_of_map_eq_ok hbare
  exact ⟨decl₁, decl₂, ⟨rfl, rfl, h₁⟩, ⟨rfl, rfl, h₂⟩, hx₁, hx₂⟩

/-- The tag of the constructor gives the type of the property that it makes. -/
theorem typedClass_gives :
    Analysis.PropertyGives typedSetup.session.docs.readers typedClass { name := "n" }
      (.scalar .int false) := by
  obtain ⟨-, -, -, hvalues⟩ := typedSetup_values
  refine Or.inr ⟨rfl, ?_, constructorOutline, { name := "n", position := 0, promoted := some .pub },
    ⟨⟨[], [], rfl, ?_⟩, rfl⟩, rfl, rfl, Or.inr ⟨rfl, "int", hvalues⟩⟩
  · rintro t ⟨text, htext, -⟩
    cases htext
  · intro m hm
    cases hm

/-- Two snapshots that contradict each other and the source, with a promoted property. -/
theorem source_types_prevail_promoted : ∃ outline faults decl₁ decl₂,
    ((readSource (sampleTree typedFile) ⟨"", ["a.php"]⟩).run typedSetup.session).1
      = .ok (outline, faults) ∧
    outline.findClass? "A" = some typedClass ∧
    typedSetup.Declares (sampleTree typedFile) "A" none ⟨"", ["a.php"]⟩ textSnapshot decl₁ ∧
    typedSetup.Declares (sampleTree typedFile) "A" none ⟨"", ["a.php"]⟩ bareSnapshot decl₂ ∧
    ∃ p₁ p₂ : PropertyDecl,
      decl₁.properties.get? "n" = some p₁ ∧ decl₂.properties.get? "n" = some p₂ ∧
      p₁.type = some (.scalar .int false) ∧ p₂.type = some (.scalar .int false) := by
  obtain ⟨outline, faults, hread, hcls⟩ := typedSetup_readSource
  obtain ⟨decl₁, decl₂, h₁, h₂, -, -⟩ := typedSetup_declares
  have hlast : LastNamed PropertyOutline.name typedClass.properties { name := "n" } :=
    ⟨[], typedClass.properties.tail, rfl, by decide⟩
  obtain ⟨p₁, p₂, hp₁, hp₂, htype⟩ :=
    (source_types_prevail typedSetup hread hcls h₁ h₂).2 { name := "n" } hlast
  exact ⟨outline, faults, decl₁, decl₂, hread, hcls, h₁, h₂, p₁, p₂, hp₁, hp₂,
    htype _ typedClass_gives⟩

/-- A type that is declared for a property is lost where the property is declared once more without
one: then reflection has the say, and two snapshots give two answers. -/
theorem repeated_property_differs : ∃ outline faults decl₁ decl₂,
    ((readSource (sampleTree typedFile) ⟨"", ["a.php"]⟩).run typedSetup.session).1
      = .ok (outline, faults) ∧
    outline.findClass? "A" = some typedClass ∧
    typedSetup.Declares (sampleTree typedFile) "A" none ⟨"", ["a.php"]⟩ textSnapshot decl₁ ∧
    typedSetup.Declares (sampleTree typedFile) "A" none ⟨"", ["a.php"]⟩ bareSnapshot decl₂ ∧
    ∃ p ∈ typedClass.properties, p.declaredType = some (.scalar .int false) ∧
      (decl₁.properties.get? p.name).map (·.type) = some (some (.scalar .string false)) ∧
      (decl₂.properties.get? p.name).map (·.type) = some none := by
  obtain ⟨outline, faults, hread, hcls⟩ := typedSetup_readSource
  obtain ⟨decl₁, decl₂, h₁, h₂, hx₁, hx₂⟩ := typedSetup_declares
  exact ⟨outline, faults, decl₁, decl₂, hread, hcls, h₁, h₂,
    { name := "x", declaredType := some (.scalar .int false) },
    List.mem_cons_of_mem _ List.mem_cons_self, rfl, hx₁, hx₂⟩

end Session

end TypeFacts
