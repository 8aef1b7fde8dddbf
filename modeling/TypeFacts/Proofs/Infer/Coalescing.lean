import TypeFacts.Proofs.Infer.Literals
import TypeFacts.Proofs.Infer.Runs
import TypeFacts.Proofs.Ty.Acceptance
import TypeFacts.Proofs.WellFormed

/-!
# The first operand that is not null

The type of `a ?? b` is merged from the type of `a` without its flag and the type of `b`, so that
only the last operand should bring `null` in. But a type may hold `null` in another way than by its
flag: it may be the null type, or a union with the null type among its members. Merging finds `null`
there and sets the flag again.

So the flag of the whole is that of the last operand wherever no operand holds `null` in such a way,
in chains of any length, and `plain_coalescing` says exactly when it is set. The number one with
`null` in front of it is described as a number or null (`coalesced_null_remains`).
-/

namespace TypeFacts

/-! ### Merging behind a cleared flag -/

namespace Ty

variable {s t : Ty} {ts : List Ty}

theorem valid_merge (hts : ∀ t ∈ ts, t.Valid) : (merge ts).Valid := by
  by_cases hne : ts = []
  · rw [hne]
    exact wellFormed_mixed.valid
  by_cases huniform : Uniform ts
  · obtain ⟨t, ht, -, hmerge⟩ := exists_of_uniform hne huniform
    rw [hmerge]
    exact hts t ht
  · exact (collects_merge hts huniform).valid

theorem valid_pair (hs : s.Valid) (ht : t.Valid) : ∀ u ∈ [s.withNullable false, t], u.Valid :=
  List.forall_mem_cons.mpr ⟨hs.withNullable false, by simpa using ht⟩

theorem not_uniform_pair (hne : t ≠ s) : ¬ Uniform [s, t] := fun huniform =>
  hne (huniform t (by simp) s (by simp))

/-- The flag of the last candidate counts, and `null` that any of them holds otherwise, unless both
are the same. -/
theorem nullable_merge_cleared (hs : s.Valid) (ht : t.Valid) :
    (merge [s.withNullable false, t]).nullable = true ↔
      t.nullable = true ∨ t ≠ s.withNullable false ∧ (s.HasNull ∨ t.HasNull) := by
  by_cases heq : t = s.withNullable false
  · rw [heq, merge_of_forall_eq (by simp)]
    simp
  · rw [(collects_merge (valid_pair hs ht) (not_uniform_pair heq)).nullable_iff]
    simp only [List.mem_cons, List.not_mem_nil, or_false, exists_eq_or_imp, exists_eq_left,
      nullable_withNullable, hasNull_withNullable, Bool.false_eq_true, false_or]
    tauto

/-- What is merged holds `null` only if a candidate does. -/
theorem hasNull_of_merge_cleared (hs : s.Valid) (ht : t.Valid)
    (h : (merge [s.withNullable false, t]).HasNull) : s.HasNull ∨ t.HasNull := by
  by_cases heq : t = s.withNullable false
  · rw [heq, merge_of_forall_eq (by simp)] at h
    exact .inl ((hasNull_withNullable s false).mp h)
  · have hcollects := collects_merge (valid_pair hs ht) (not_uniform_pair heq)
    -- a merge that is no union of others holds `null` by being the null type
    have hsingle : (merge [s.withNullable false, t]).isUnion = false := by
      by_contra hunion
      exact hcollects.nullFree (by simpa using hunion) h
    obtain ⟨m, hm, hnull⟩ := h
    rw [members_of_not_isUnion hsingle, List.mem_singleton] at hm
    subst hm
    have hempty : allAlternatives [s.withNullable false, t] = ∅ := by
      rw [← hcollects.alternatives_eq, alternatives_of_isNull hnull]
    exact .inr (hasNull_of_isNull
      (isNull_of_allAlternatives_eq_empty (valid_pair hs ht) hempty (by simp)))

end Ty

namespace Infer

variable {functions : FunctionTypes} {n l r : Node} {s t : Ty}

theorem inherited_valid : Ty.Inherited Ty.Valid :=
  ⟨Ty.WellFormed.valid, fun h => h.withNullable false, .array false, .keyed false, Ty.valid_merge⟩

/-! ### One operation -/

/-- The node takes the second operand where the first is null. -/
structure IsCoalescing (n l r : Node) : Prop where
  kind : n.kind = "binary_expression"
  operator : operator n = "??"
  left : n.child? "left" = some l
  right : n.child? "right" = some r

theorem exists_childBelow? {role : String} {c : Node} (h : n.child? role = some c) :
    ∃ b, n.childBelow? role = some b ∧ b.1 = c := by
  rw [← Node.childBelow?_map_val] at h
  exact Option.map_eq_some_iff.mp h

/-- The type is merged from those of the operands, the first without its flag. -/
theorem plain_of_isCoalescing (h : IsCoalescing n l r) :
    plain functions n = (do
      let s ← plain functions l
      let t ← plain functions r
      return .merge [s.withNullable false, t]) := by
  obtain ⟨l', hl, rfl⟩ := exists_childBelow? h.left
  obtain ⟨r', hr, rfl⟩ := exists_childBelow? h.right
  have hplan : plan functions n = ⟨[l', r'], fun ts => .ok (.merge (coalesce ts))⟩ := by
    simp only [plan, h.kind, binaryPlan, h.operator, hl, hr]
    rfl
  rw [plain_eq, hplan]
  simp only [List.map_cons, List.map_nil, List.mapM_cons, List.mapM_nil]
  cases plain functions l'.1 with
  | error e => rfl
  | ok s =>
    cases plain functions r'.1 with
    | error e => rfl
    | ok t => rfl

/-! ### Chains -/

/-- The operands of a chain, which goes on in the second operand for as long as one likes. -/
inductive Chain : Node → List Node → Prop
  | last (n : Node) : Chain n [n]
  | more {n l r : Node} {operands : List Node} : IsCoalescing n l r → Chain r operands →
      Chain n (l :: operands)

/-- Where no operand holds `null` by its form, the flag of a chain is that of its last operand. -/
theorem nullable_chain (hfunctions : ∀ f ∈ functions, f.2.Valid) {operands : List Node}
    (hchain : Chain n operands) {types : List Ty}
    (htypes : operands.mapM (plain functions) = .ok types) (hnull : ∀ t ∈ types, ¬ t.HasNull) :
    ∃ u t, plain functions n = .ok u ∧ types.getLast? = some t ∧ u.nullable = t.nullable ∧
      ¬ u.HasNull := by
  induction hchain generalizing types with
  | last n =>
    rw [List.mapM_cons, List.mapM_nil] at htypes
    obtain ⟨u, hu, hone⟩ := bind_eq_ok.mp htypes
    obtain rfl : [u] = types := Except.ok.inj hone
    exact ⟨u, u, hu, rfl, rfl, hnull u (by simp)⟩
  | @more n l r operands hn _ ih =>
    rw [List.mapM_cons] at htypes
    obtain ⟨s, hs, htypes⟩ := bind_eq_ok.mp htypes
    obtain ⟨others, hothers, hcons⟩ := bind_eq_ok.mp htypes
    obtain rfl : s :: others = types := Except.ok.inj hcons
    obtain ⟨hsnull, hrest⟩ := List.forall_mem_cons.mp hnull
    obtain ⟨u, t, hu, hlast, hflag, hunull⟩ := ih hothers hrest
    have hsvalid := yields_plain inherited_valid hfunctions l s hs
    have huvalid := yields_plain inherited_valid hfunctions r u hu
    refine ⟨.merge [s.withNullable false, u], t, ?_, ?_, ?_, fun h => ?_⟩
    · rw [plain_of_isCoalescing hn, hs, hu]
      rfl
    · rw [List.getLast?_cons, hlast]
      rfl
    · rw [← hflag, Bool.eq_iff_iff, Ty.nullable_merge_cleared hsvalid huvalid]
      simp [hsnull, hunull]
    · exact (Ty.hasNull_of_merge_cleared hsvalid huvalid h).elim hsnull hunull

/-- The flag of `a ?? b` is set exactly if that of the second operand is, or if one of the operands
holds `null` by its form and they are not the same. So in a chain without such operands only the
last one counts. -/
theorem plain_coalescing (functions : FunctionTypes) (hfunctions : ∀ f ∈ functions, f.2.Valid) :
    (∀ n l r s t, IsCoalescing n l r → plain functions l = .ok s → plain functions r = .ok t →
      ∃ u, plain functions n = .ok u ∧ (u.nullable = true ↔
        t.nullable = true ∨ t ≠ s.withNullable false ∧ (s.HasNull ∨ t.HasNull))) ∧
    ∀ n operands types, Chain n operands → operands.mapM (plain functions) = .ok types →
      (∀ t ∈ types, ¬ t.HasNull) →
      ∃ u t, plain functions n = .ok u ∧ types.getLast? = some t ∧ u.nullable = t.nullable := by
  constructor
  · intro n l r s t hn hs ht
    refine ⟨.merge [s.withNullable false, t], ?_, ?_⟩
    · rw [plain_of_isCoalescing hn, hs, ht]
      rfl
    · exact Ty.nullable_merge_cleared (yields_plain inherited_valid hfunctions l s hs)
        (yields_plain inherited_valid hfunctions r t ht)
  · intro n operands types hchain htypes hnull
    obtain ⟨u, t, hu, hlast, hflag, -⟩ := nullable_chain hfunctions hchain htypes hnull
    exact ⟨u, t, hu, hlast, hflag⟩

/-! ### A chain, and the number one behind null -/

/-- The operation on two operands. -/
def coalescingTree (start : Nat) (role text : String) (left right : Node) : Node :=
  partAt start "binary_expression" role text true
    [left, partAt (start + 2) "??" "operator" "??" false [], right]

theorem isCoalescing_tree {left right : Node} (hleft : left.role = "left")
    (hright : right.role = "right") (start : Nat) (role text : String) :
    IsCoalescing (coalescingTree start role text left right) left right := by
  have hchild : ∀ wanted, (coalescingTree start role text left right).child? wanted
      = [left, partAt (start + 2) "??" "operator" "??" false [], right].find? (·.role == wanted) :=
    fun _ => rfl
  have hsign : (partAt (start + 2) "??" "operator" "??" false []).role = "operator" := rfl
  refine ⟨rfl, ?_, ?_, ?_⟩
  · have hoperator : (coalescingTree start role text left right).child? "operator"
        = some (partAt (start + 2) "??" "operator" "??" false []) := by
      simp [hchild, hleft, hsign]
    rw [operator, hoperator]
    change Text.lower (Text.trimmed "??") = "??"
    decide
  · simp [hchild, hleft]
  · simp [hchild, hleft, hsign, hright]

/-- A function that gives an object or null. -/
def maybeFunctions : FunctionTypes := [("f", .named "B" true)]

/-- The text `'a'`. -/
def letterNode : Node := partAt 5 "string" "left" "'a'" true []

/-- A call of the function. -/
def maybeCall : Node :=
  partAt 12 "function_call_expression" "right" "f()" true [partAt 12 "name" "function" "f" true []]

/-- The chain `1 ?? 'a' ?? f()`. -/
def chainTree : Node :=
  coalescingTree 0 "" "1 ?? 'a' ?? f()" (oneAt 0 "left")
    (coalescingTree 5 "right" "'a' ?? f()" letterNode maybeCall)

/-- In a chain of a number, a text and an object or null, only the last operand allows null, and so
does the chain. -/
theorem plain_coalescing_chain :
    (∀ f ∈ maybeFunctions, f.2.Valid) ∧
    Chain chainTree [oneAt 0 "left", letterNode, maybeCall] ∧
    [oneAt 0 "left", letterNode, maybeCall].mapM (plain maybeFunctions)
      = .ok [.scalar .int false, .scalar .string false, .named "B" true] ∧
    ∃ u, plain maybeFunctions chainTree = .ok u ∧ u.nullable = true := by
  have hfunctions : ∀ f ∈ maybeFunctions, f.2.Valid := by
    simpa [maybeFunctions] using Ty.Valid.named true (by decide)
  have hchain : Chain chainTree [oneAt 0 "left", letterNode, maybeCall] :=
    .more (isCoalescing_tree rfl rfl _ _ _) (.more (isCoalescing_tree rfl rfl _ _ _) (.last _))
  have hcall : plain maybeFunctions maybeCall = .ok (.named "B" true) := by
    refine plain_of_known ?_
    have hresult : callType maybeFunctions maybeCall = .named "B" true := by decide
    rw [← hresult]
    rfl
  have htypes : [oneAt 0 "left", letterNode, maybeCall].mapM (plain maybeFunctions)
      = .ok [.scalar .int false, .scalar .string false, .named "B" true] := by
    rw [List.mapM_cons, List.mapM_cons, List.mapM_cons, List.mapM_nil, hcall,
      plain_of_literalKind? (n := oneAt 0 "left") rfl, plain_of_literalKind? (n := letterNode) rfl]
    rfl
  have hnull : ∀ t ∈ [Ty.scalar .int false, .scalar .string false, .named "B" true],
    ¬ t.HasNull := by
    simp [Ty.HasNull, Ty.members, Ty.isNull]
  obtain ⟨u, t, hu, hlast, hflag⟩ :=
    (plain_coalescing maybeFunctions hfunctions).2 _ _ _ hchain htypes hnull
  obtain rfl : Ty.named "B" true = t := Option.some.inj hlast
  exact ⟨hfunctions, hchain, htypes, u, hu, hflag⟩

/-- The expression `null ?? 1`. -/
def nullOrOne : Node :=
  coalescingTree 0 "" "null ?? 1" (partAt 0 "null" "left" "null" true []) (oneAt 8 "right")

/-- With `null` in front, a number is described as a number or null. -/
theorem coalesced_null_remains :
    IsCoalescing nullOrOne (partAt 0 "null" "left" "null" true []) (oneAt 8 "right") ∧
    plain builtinFunctions (oneAt 8 "right") = .ok (.scalar .int false) ∧
    plain builtinFunctions nullOrOne = .ok (.scalar .int true) := by
  have hn : IsCoalescing nullOrOne (partAt 0 "null" "left" "null" true []) (oneAt 8 "right") :=
    isCoalescing_tree rfl rfl _ _ _
  have hright : plain builtinFunctions (oneAt 8 "right") = .ok (.scalar .int false) :=
    plain_of_literalKind? rfl
  refine ⟨hn, hright, ?_⟩
  rw [plain_of_isCoalescing hn, hright, plain_of_kind_null rfl]
  rfl

end Infer

end TypeFacts
