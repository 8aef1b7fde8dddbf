import TypeFacts.Proofs.Infer.Runs
import TypeFacts.Proofs.TypeText.Misreadings

/-!
# Where inference fails

Parts that are missing, faulty or of unknown kinds do not stop inference: they make a type `mixed`.
Only three kinds of nodes take a name from their text, and these fail where the name is empty: a
new object of a class without a name, and a cast or a type name whose text cannot be read
(`Unreadable`).

The plan of a node fails exactly then, whatever the types of its parts are (`combine_returns_iff`).
So inference returns a type for every tree and from every memo, unless it needs the type of an
unreadable node that is not kept (`returns_infer`), and plain recursion fails exactly where it needs
one (`plain_returns_iff`).
-/

namespace TypeFacts.Infer

open TypeText (Nameless)

/-! ### Nodes that cannot be read -/

/-- The part that names the type of a cast. -/
def castPart? (n : Node) : Option Node :=
  (n.child? "type").orElse fun _ => n.namedOf? ["cast_type"]

/-- The node takes its type from a text that gives an empty name. -/
inductive Unreadable (n : Node) : Prop
  /-- A new object whose class name has no character but backslashes. -/
  | creation {c : Node} : n.kind = "object_creation_expression" →
      n.namedOf? ["name", "qualified_name"] = some c → (∀ x ∈ c.text.toList, x = '\\') →
      Unreadable n
  /-- A cast to a type that cannot be read. -/
  | cast {c : Node} {a : List Char} : n.kind = "cast_expression" → castPart? n = some c →
      TypeText.Reached (Text.lower (Text.trimmed c.text)).toList a → Nameless a → Unreadable n
  /-- A type name that cannot be read. -/
  | typeName {a : List Char} : n.kind ∈ typeKinds → TypeText.Reached n.text.toList a → Nameless a →
      Unreadable n

/-- The kinds of nodes that take a name from their text. -/
def namingKinds : List String :=
  ["object_creation_expression", "cast_expression"] ++ typeKinds

theorem Unreadable.kind_mem {n : Node} (h : Unreadable n) : n.kind ∈ namingKinds := by
  cases h with
  | creation hkind => rw [hkind]; decide
  | cast hkind => rw [hkind]; decide
  | typeName hkind => exact List.mem_append_right _ hkind

/-! ### One plan -/

/-- A name is read unless some alternative of it is nameless. -/
theorem namedBy_returns_iff {text : String} : (∃ t, namedBy text = .ok t) ↔
    ∀ a, TypeText.Reached text.toList a → ¬ Nameless a := by
  rw [← TypeText.parse_succeeds_iff, namedBy]
  cases TypeText.parse text with
  | error e => simp [Except.map]
  | ok found => simp [Except.map]

/-- The words for casts that name no type have no arguments. -/
theorem not_nameless_of_reached {text : String} (h : '<' ∉ text.toList) {a : List Char}
    (ha : TypeText.Reached text.toList a) : ¬ Nameless a := fun hless => by
  obtain ⟨b, -, hinside⟩ := hless.isInfix
  exact h ((hinside.trans ha.isInfix).subset (by simp))

/-- A cast is read unless some alternative of its type is nameless. -/
theorem castType_returns_iff {text : String} : (∃ t, castType text = .ok t) ↔
    ∀ a, TypeText.Reached (Text.lower (Text.trimmed text)).toList a → ¬ Nameless a := by
  have hword : ∀ {w : String} {t : Ty}, '<' ∉ w.toList →
      ((∃ u, (Except.ok t : Except Ty.Fault Ty) = .ok u) ↔
        ∀ a, TypeText.Reached w.toList a → ¬ Nameless a) := fun hw =>
    iff_of_true ⟨_, rfl⟩ fun a => not_nameless_of_reached hw
  unfold castType
  split
  · next heq => rw [heq]; exact hword (by decide)
  · next heq => rw [heq]; exact hword (by decide)
  · next heq => rw [heq]; exact hword (by decide)
  · next heq => rw [heq]; exact hword (by decide)
  · exact namedBy_returns_iff

theorem ofName_returns_iff {name : String} :
    (∃ t, Ty.ofName (Text.withoutBackslashes name) false = .ok t) ↔
      ¬ ∀ x ∈ name.toList, x = '\\' := by
  have hempty : Text.withoutBackslashes name = "" ↔ ∀ x ∈ name.toList, x = '\\' := by
    simp [Text.withoutBackslashes, Text.dropBackslashes, String.ext_iff]
  rw [← hempty, Ty.ofName]
  split_ifs with h
  · exact iff_of_false (by simp) fun hne => hne (String.isEmpty_iff.mp h)
  · exact iff_of_true ⟨_, rfl⟩ fun heq => h (String.isEmpty_iff.mpr heq)

theorem binaryPlan_returns (n : Node) (ts : List Ty) : ∃ t, (binaryPlan n).combine ts = .ok t := by
  simp only [binaryPlan]
  split_ifs
  · split <;> exact ⟨_, rfl⟩
  all_goals exact ⟨_, rfl⟩

theorem unaryPlan_returns (n : Node) (ts : List Ty) : ∃ t, (unaryPlan n).combine ts = .ok t := by
  simp only [unaryPlan]
  split_ifs
  · exact ⟨_, rfl⟩
  · exact ⟨_, rfl⟩
  all_goals split <;> exact ⟨_, rfl⟩

/-- The creation of an object has a type unless it is unreadable. -/
theorem creationType_returns_iff {n : Node} (hkind : n.kind = "object_creation_expression") :
    (∃ t, creationType n = .ok t) ↔ ¬ Unreadable n := by
  have hinv : Unreadable n ↔ ∃ c, n.namedOf? ["name", "qualified_name"] = some c ∧
      ∀ x ∈ c.text.toList, x = '\\' := by
    refine ⟨fun h => ?_, fun ⟨c, hc, hall⟩ => .creation hkind hc hall⟩
    cases h with
    | creation _ hc hall => exact ⟨_, hc, hall⟩
    | cast hcast => exact absurd (hkind.symm.trans hcast) (by decide)
    | typeName hmem => exact absurd (hkind ▸ hmem) (by decide)
  rw [hinv, creationType]
  cases n.namedOf? ["name", "qualified_name"] with
  | none => simp
  | some c => simpa using ofName_returns_iff

theorem unreadable_iff_of_cast {n : Node} (hkind : n.kind = "cast_expression") :
    Unreadable n ↔ ∃ c, castPart? n = some c ∧ ∃ a,
      TypeText.Reached (Text.lower (Text.trimmed c.text)).toList a ∧ Nameless a := by
  refine ⟨fun h => ?_, fun ⟨c, hc, a, ha, hless⟩ => .cast hkind hc ha hless⟩
  cases h with
  | creation hcreation => exact absurd (hkind.symm.trans hcreation) (by decide)
  | cast _ hc ha hless => exact ⟨_, hc, _, ha, hless⟩
  | typeName hmem => exact absurd (hkind ▸ hmem) (by decide)

theorem typeName_returns_iff {n : Node} (hkind : n.kind ∈ typeKinds) :
    (∃ t, namedBy n.text = .ok t) ↔ ¬ Unreadable n := by
  have hinv : Unreadable n ↔ ∃ a, TypeText.Reached n.text.toList a ∧ Nameless a := by
    refine ⟨fun h => ?_, fun ⟨a, ha, hless⟩ => .typeName hkind ha hless⟩
    cases h with
    | creation hcreation => exact absurd (hcreation ▸ hkind) (by decide)
    | cast hcast => exact absurd (hcast ▸ hkind) (by decide)
    | typeName _ ha hless => exact ⟨_, ha, hless⟩
  rw [hinv, namedBy_returns_iff]
  simp

/-- A plan gives a type from whatever types of its parts, unless the node is unreadable. -/
theorem combine_returns_iff (functions : FunctionTypes) (n : Node) (ts : List Ty) :
    (∃ t, (plan functions n).combine ts = .ok t) ↔ ¬ Unreadable n := by
  have hother : ∀ {r : Except Ty.Fault Ty}, n.kind ∉ namingKinds → (∃ t, r = .ok t) →
      ((∃ t, r = .ok t) ↔ ¬ Unreadable n) := fun hkind hr =>
    iff_of_true hr fun h => hkind h.kind_mem
  have hliteral : ∀ kind ∈ namingKinds, literalKind? kind = none := by decide
  unfold plan
  -- the cases are those of the plan; all but three give a type whatever the node is made of
  split
  · next k hk =>
    refine hother (fun hkind => ?_) ⟨_, rfl⟩
    rw [hliteral _ hkind] at hk
    cases hk
  · split
    · next hkind => exact hother (by rw [hkind]; decide) ⟨_, rfl⟩
    · next hkind => exact hother (by rw [hkind]; decide) ⟨_, rfl⟩
    · next hkind => exact hother (by rw [hkind]; decide) (binaryPlan_returns n ts)
    · next hkind => exact hother (by rw [hkind]; decide) ⟨_, rfl⟩
    · next hkind => exact hother (by rw [hkind]; decide) (unaryPlan_returns n ts)
    · next hkind =>
      rw [unreadable_iff_of_cast hkind, castPart?]
      split
      · next c hc =>
        rw [hc]
        simpa [Plan.const] using castType_returns_iff
      · next hnone =>
        rw [hnone]
        exact iff_of_true ⟨_, rfl⟩ (by simp)
    · next hkind =>
      refine hother (by rw [hkind]; decide) ?_
      split <;> exact ⟨_, rfl⟩
    · next hkind => exact hother (by rw [hkind]; decide) ⟨_, rfl⟩
    · next hkind => exact creationType_returns_iff hkind
    · next hcast _ _ hcreation =>
      split_ifs with htype
      · exact typeName_returns_iff (List.contains_iff_mem.mp htype)
      · refine hother (fun hmem => ?_) ⟨_, rfl⟩
        rcases List.mem_append.mp hmem with hmem | hmem
        · rcases List.mem_pair.mp hmem with hkind | hkind
          · exact hcreation hkind
          · exact hcast hkind
        · exact htype (List.contains_iff_mem.mpr hmem)

/-! ### Inference -/

/-- The type of the first node is made, through any number of plans, from that of the second. -/
inductive Needs (functions : FunctionTypes) : Node → Node → Prop
  /-- The type of a node itself. -/
  | self (n : Node) : Needs functions n n
  /-- A type that a part of the plan needs. -/
  | part {n : Node} {c : n.Below} {d : Node} : c ∈ (plan functions n).parts →
      Needs functions c.1 d → Needs functions n d

variable {functions : FunctionTypes}

/-- A node needs itself and what the parts of its plan need. -/
theorem forall_needs {n : Node} {P : Node → Prop} : (∀ c, Needs functions n c → P c) ↔
    P n ∧ ∀ c ∈ (plan functions n).parts, ∀ d, Needs functions c.1 d → P d := by
  refine ⟨fun h => ⟨h n (.self n), fun c hc d hd => h d (.part hc hd)⟩, ?_⟩
  rintro ⟨hn, hparts⟩ d hd
  cases hd with
  | self => exact hn
  | part hc hd => exact hparts _ hc _ hd

/-- Plain recursion gives a type exactly if every node whose type it needs can be read. -/
theorem plain_returns_iff (n : Node) : (∃ t, plain functions n = .ok t) ↔
    ∀ c, Needs functions n c → ¬ Unreadable c := by
  have hparts : (∃ ts, ((plan functions n).parts.map Subtype.val).mapM (plain functions) = .ok ts) ↔
      ∀ c ∈ (plan functions n).parts, ∀ d, Needs functions c.1 d → ¬ Unreadable d := by
    have hrow : ∀ cs : List Node, (∃ ts, cs.mapM (plain functions) = .ok ts) ↔
        ∀ c ∈ cs, ∃ t, plain functions c = .ok t := fun cs => by
      simpa using @exists_mapM_iff _ _ _ (plain functions) (fun _ => True) cs
    rw [hrow, List.forall_mem_map]
    refine forall₂_congr fun c _ => ?_
    have := c.2
    exact plain_returns_iff c.1
  rw [forall_needs, ← hparts, plain_eq]
  constructor
  · rintro ⟨t, ht⟩
    obtain ⟨ts, hts, ht⟩ := bind_eq_ok.mp ht
    exact ⟨(combine_returns_iff functions n ts).mp ⟨t, ht⟩, ts, hts⟩
  · rintro ⟨hn, ts, hts⟩
    obtain ⟨t, ht⟩ := (combine_returns_iff functions n ts).mpr hn
    exact ⟨t, bind_eq_ok.mpr ⟨ts, hts, ht⟩⟩
termination_by sizeOf n

/-- In every sound state the computation gives a result, and leaves a sound state behind. -/
def Returns {σ ε α : Type} (Sound : σ → Prop) (x : ExceptT ε (StateM σ) α) : Prop :=
  ∀ s, Sound s → ∃ a s', x.run s = (.ok a, s') ∧ Sound s'

theorem Returns.bind {σ ε α β : Type} {Sound : σ → Prop} {x : ExceptT ε (StateM σ) α}
    {f : α → ExceptT ε (StateM σ) β} (hx : Returns Sound x) (hf : ∀ a, Returns Sound (f a)) :
    Returns Sound (x >>= f) := by
  intro s hs
  obtain ⟨a, s', ha, hs'⟩ := hx s hs
  rw [run_bind_apply, ha]
  exact hf a s' hs'

/-- A computation returns on a list if it does on each member. -/
theorem Returns.mapM {σ ε α β : Type} {Sound : σ → Prop} {f : α → ExceptT ε (StateM σ) β}
    {l : List α} (h : ∀ a ∈ l, Returns Sound (f a)) : Returns Sound (l.mapM f) := by
  induction l with
  | nil => exact fun s hs => ⟨[], s, rfl, hs⟩
  | cons a l ih =>
    rw [List.mapM_cons]
    refine (h a List.mem_cons_self).bind fun b => ?_
    refine (ih fun c hc => h c (List.mem_cons_of_mem a hc)).bind fun bs => ?_
    exact fun s hs => ⟨b :: bs, s, rfl, hs⟩

/-- The memo has a type for every node for which the other one has. -/
def Extends (m m' : TypeMemo) : Prop :=
  ∀ key, (m.find? key).isSome = true → (m'.find? key).isSome = true

theorem Extends.store {m m' : TypeMemo} (h : Extends m m') (key : String × String) (t : Ty) :
    Extends m (m'.store key t).2 := by
  intro other hother
  rw [Memo.find?_store]
  split_ifs
  · rfl
  · exact h other hother

/-- Inference returns a type from every memo that extends one in which the unreadable nodes whose
types are needed are kept. -/
theorem returns_infer {m : TypeMemo} (n : Node) (h : ∀ c, Needs functions n c → Unreadable c →
    (m.find? (memoKey c)).isSome = true) : Returns (Extends m) (infer functions n) := by
  intro m' hm'
  obtain ⟨hn, hparts⟩ := forall_needs.mp h
  rw [infer_run]
  cases hfind : m'.find? (memoKey n) with
  | some stored => exact ⟨stored.value, m', rfl, hm'⟩
  | none =>
    -- the node is not kept, so it can be read
    have hreadable : ¬ Unreadable n := fun hbad => by
      have hkept := hm' _ (hn hbad)
      rw [hfind] at hkept
      cases hkept
    have hrow : Returns (Extends m) ((plan functions n).parts.mapM fun c => infer functions c.1) :=
      Returns.mapM fun c hc =>
        have := c.2
        returns_infer c.1 (hparts c hc)
    refine hrow.bind (fun ts s hs => ?_) m' hm'
    obtain ⟨t, ht⟩ := (combine_returns_iff functions n ts).mpr hreadable
    rw [ht]
    exact ⟨t, _, rfl, hs.store (memoKey n) t⟩
termination_by sizeOf n

/-- From every memo inference returns a type for every tree in which the nodes whose types are
needed can be read or are kept. Where nodes of one kind and text have equal subtrees, it fails
exactly if the type of an unreadable node is needed, whatever was asked or forgotten before. -/
theorem infer_returns (functions : FunctionTypes) :
    (∀ (n : Node) (m : TypeMemo),
      (∀ c, Needs functions n c → Unreadable c → (m.find? (memoKey c)).isSome = true) →
        ∃ t, ((infer functions n).run m).1 = .ok t) ∧
    ∀ Trees : Node → Prop, Node.Consistent (Node.Among Trees) →
      ∀ steps : List Step, (∀ n ∈ asked steps, Node.Among Trees n) →
        List.Forall₂
          (fun n answer => answer = .error .emptyName ↔ ∃ c, Needs functions n c ∧ Unreadable c)
          (asked steps) (answers functions steps .empty) := by
  refine ⟨fun n m h => ?_, fun Trees hconsistent steps hsteps => ?_⟩
  · obtain ⟨t, m', hrun, -⟩ := returns_infer n h m fun _ => id
    exact ⟨t, by rw [hrun]⟩
  · rw [answers_of_holds hconsistent (Node.closed_among Trees) hsteps Memo.holds_empty,
      List.forall₂_map_right_iff, List.forall₂_same]
    intro n _
    rw [← not_iff_not, not_exists]
    simp only [not_and]
    rw [← plain_returns_iff]
    cases plain functions n with
    | error e => cases e; simp
    | ok t => simp

/-- A sum with a creation that has no name, asked for again after another sum and a clearing. -/
theorem infer_returns_faulty_sum :
    let steps : List Step := [.infer faultyTree, .infer sumTree, .clear, .infer faultyTree]
    Node.Consistent (Node.Among IsRunTree) ∧ (∀ n ∈ asked steps, Node.Among IsRunTree n) ∧
    List.Forall₂ (fun n answer => answer = .error .emptyName ↔ ∃ c, Needs [] n c ∧ Unreadable c)
      (asked steps) (answers [] steps .empty) := by
  intro steps
  have hsteps : ∀ n ∈ asked steps, Node.Among IsRunTree n := by
    have hsum : Node.Among IsRunTree sumTree := ⟨_, .inl rfl, .root⟩
    have hfaulty : Node.Among IsRunTree faultyTree := ⟨_, .inr rfl, .root⟩
    simp [asked, steps, hsum, hfaulty]
  exact ⟨runNodes_consistent, hsteps, (infer_returns []).2 _ runNodes_consistent _ hsteps⟩

/-- A new object where the name of the class is missing. -/
def unnamedCreation : Node :=
  .mk "object_creation_expression" true false true 6 1 7 "" "new"
    [.mk "new" false false false 6 1 7 "" "new" [], .mk "name" true true true 9 1 10 "" "" []]

/-- The type of a new object is not inferred where the name of the class is missing. -/
theorem unnamed_creation_fails :
    ((infer [] unnamedCreation).run .empty).1 = .error .emptyName := by
  rw [infer_run]
  decide

end TypeFacts.Infer
