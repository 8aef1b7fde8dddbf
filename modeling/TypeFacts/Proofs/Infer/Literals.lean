import TypeFacts.Proofs.Infer.Memo
import TypeFacts.Snapshot.Convert

/-!
# Literals of values

A default value may be known as a value, from reflection, or as an expression of source code. The
literal of a value is the tree that source code has for it (`Literal`): a number, a text or one of
the words for truth values and null, a sign and a number for what is negative, and an array literal
with one element for each item of a list and for each field of an object. Inference gives such a
tree the type of the value (`Infer.plain_literal`).

Both sides recurse, one over the value and one over the parts that a plan asks for. A plan lists the
parts of all elements in one row and takes their types from the row again; `RowGives` says what it
takes for a row of elements, and elements are added to the front one by one.
-/

namespace TypeFacts

/-! ### The trees of literals -/

/-- The literal of a number: a node of the kind, behind a sign where the number is negative. -/
def NumberLiteral (kind : String) (negative : Bool) (n : Node) : Prop :=
  match negative with
  | false => n.kind = kind
  | true => ∃ sign number : Node, n.kind = "unary_op_expression" ∧ n.children = [sign, number] ∧
      (sign.isNamed = false ∧ sign.text = "-" ∧ sign.role ≠ "argument") ∧
      number.isNamed = true ∧ number.kind = kind ∧ number.role ≠ "operator"

/-- The literal of a text, in one of the notations without parts to fill in. -/
def StringLiteral (n : Node) : Prop :=
  n.kind ∈ ["string", "encapsed_string", "heredoc", "nowdoc"]

/-- Is the number below zero, or zero with a minus sign? -/
def Number.Binary64.isNegative : Number.Binary64 → Bool
  | nan => false
  | infinite negative | finite negative _ _ => negative

mutual

/-- The tree is a literal of the value. -/
def Literal : Json → Node → Prop
  | .null, n => n.kind = "null"
  | .bool _, n => n.kind = "boolean"
  | .int i, n => NumberLiteral "integer" (decide (i < 0)) n
  | .float x, n => NumberLiteral "float" x.isNegative n
  | .str _, n => StringLiteral n
  | .arr items, n => n.kind = "array_creation_expression" ∧ LiteralItems items n.namedChildren
  | .obj fields, n => n.kind = "array_creation_expression" ∧ LiteralFields fields n.namedChildren

/-- The elements hold the items, one each. -/
def LiteralItems : List Json → List Node → Prop
  | [], es => es = []
  | x :: xs, es => ∃ e v rest, es = e :: rest ∧ e.kind = "array_element_initializer" ∧
      e.namedChildren = [v] ∧ Literal x v ∧ LiteralItems xs rest

/-- The elements hold the fields, each a text for its name and a value. -/
def LiteralFields : List (String × Json) → List Node → Prop
  | [], es => es = []
  | (_, x) :: fields, es => ∃ e k v rest, es = e :: rest ∧ e.kind = "array_element_initializer" ∧
      e.namedChildren = [k, v] ∧ StringLiteral k ∧ Literal x v ∧ LiteralFields fields rest

end

/-! ### Every value has a literal -/

/-- A node with a kind, a role and parts, without its place and text. -/
def Node.ofKind (kind role : String) (children : List Node) : Node :=
  .mk kind true false false 0 1 1 role "" children

/-- A literal of a number. -/
def numberTree (kind : String) (negative : Bool) : Node :=
  if negative then
    .ofKind "unary_op_expression" ""
      [.mk "-" false false false 0 1 1 "operator" "-" [], .ofKind kind "argument" []]
  else .ofKind kind "" []

mutual

/-- A literal of the value. -/
def Json.tree : Json → Node
  | .null => .ofKind "null" "" []
  | .bool _ => .ofKind "boolean" "" []
  | .int i => numberTree "integer" (decide (i < 0))
  | .float x => numberTree "float" x.isNegative
  | .str _ => .ofKind "string" "" []
  | .arr items => .ofKind "array_creation_expression" "" (Json.itemTrees items)
  | .obj fields => .ofKind "array_creation_expression" "" (Json.fieldTrees fields)

/-- An element for each item. -/
def Json.itemTrees : List Json → List Node
  | [] => []
  | x :: xs => .ofKind "array_element_initializer" "" [x.tree] :: Json.itemTrees xs

/-- An element for each field. -/
def Json.fieldTrees : List (String × Json) → List Node
  | [] => []
  | (_, x) :: fields =>
    .ofKind "array_element_initializer" ""
      [.ofKind "string" "" [], x.tree] :: Json.fieldTrees fields

end

/-- The tree of a number is a literal of it, with or without a sign. -/
theorem numberLiteral_numberTree (kind : String) (negative : Bool) :
    NumberLiteral kind negative (numberTree kind negative) := by
  cases negative with
  | false => rfl
  | true =>
    exact ⟨_, _, rfl, rfl, ⟨rfl, rfl, by decide⟩, rfl, rfl, by simp [Node.ofKind, Node.role]⟩

theorem numberTree_isNamed (kind : String) (negative : Bool) :
    (numberTree kind negative).isNamed = true := by
  cases negative <;> rfl

namespace Json

theorem tree_isNamed (v : Json) : v.tree.isNamed = true := by
  cases v <;> rw [tree] <;> first | rfl | exact numberTree_isNamed _ _

/-- Items are named nodes, so no item is passed over. -/
theorem namedChildren_itemTrees (items : List Json) :
    (itemTrees items).filter Node.isNamed = itemTrees items := by
  induction items with
  | nil => rfl
  | cons x xs ih =>
    rw [itemTrees, List.filter_cons_of_pos rfl, ih]

theorem namedChildren_fieldTrees (fields : List (String × Json)) :
    (fieldTrees fields).filter Node.isNamed = fieldTrees fields := by
  induction fields with
  | nil => rfl
  | cons f fields ih =>
    rw [fieldTrees, List.filter_cons_of_pos rfl, ih]

mutual

/-- The tree of a value is a literal of it. Lists and objects go through their items and fields. -/
theorem literal_tree : ∀ v : Json, Literal v v.tree
  | .null => by rw [tree, Literal]; rfl
  | .bool _ => by rw [tree, Literal]; rfl
  | .int i => by rw [tree, Literal]; exact numberLiteral_numberTree _ _
  | .float x => by rw [tree, Literal]; exact numberLiteral_numberTree _ _
  | .str _ => by rw [tree, Literal]; exact List.mem_cons_self
  | .arr items => by
    rw [tree, Literal]
    refine ⟨rfl, ?_⟩
    rw [show (Node.ofKind _ _ (itemTrees items)).namedChildren = _ from
      namedChildren_itemTrees items]
    exact literalItems_itemTrees items
  | .obj fields => by
    rw [tree, Literal]
    refine ⟨rfl, ?_⟩
    rw [show (Node.ofKind _ _ (fieldTrees fields)).namedChildren = _ from
      namedChildren_fieldTrees fields]
    exact literalFields_fieldTrees fields

theorem literalItems_itemTrees : ∀ items : List Json, LiteralItems items (itemTrees items)
  | [] => by rw [itemTrees, LiteralItems]
  | x :: xs => by
    rw [itemTrees, LiteralItems]
    refine ⟨_, x.tree, _, rfl, rfl, ?_, literal_tree x, literalItems_itemTrees xs⟩
    exact List.filter_cons_of_pos x.tree_isNamed

theorem literalFields_fieldTrees :
    ∀ fields : List (String × Json), LiteralFields fields (fieldTrees fields)
  | [] => by rw [fieldTrees, LiteralFields]
  | (_, x) :: fields => by
    rw [fieldTrees, LiteralFields]
    refine ⟨_, .ofKind "string" "" [], x.tree, _, rfl, rfl, ?_, List.mem_cons_self, literal_tree x,
      literalFields_fieldTrees fields⟩
    exact congrArg (_ :: ·) (List.filter_cons_of_pos x.tree_isNamed)

end

end Json

namespace Infer

variable {functions : FunctionTypes} {n : Node}

/-! ### Nodes without parts, and signs -/

/-- A node with a known type has this type. -/
theorem plain_of_known {t : Ty} (h : plan functions n = .known t) : plain functions n = .ok t := by
  rw [plain_eq, h]
  rfl

/-- A literal of a scalar kind has the scalar as its type. -/
theorem plain_of_literalKind? {k : ScalarKind} (h : literalKind? n.kind = some k) :
    plain functions n = .ok (.scalar k false) := by
  refine plain_of_known ?_
  simp only [plan, h]

/-- A text literal has the type of texts. -/
theorem plain_of_stringLiteral (h : StringLiteral n) :
    plain functions n = .ok (.scalar .string false) := by
  refine plain_of_literalKind? ?_
  have hkinds : ∀ kind ∈ ["string", "encapsed_string", "heredoc", "nowdoc"],
      literalKind? kind = some .string := by decide
  exact hkinds n.kind h

/-- The null literal has the null type. -/
theorem plain_of_kind_null (h : n.kind = "null") : plain functions n = .ok .null := by
  refine plain_of_known ?_
  simp only [plan, h]
  rfl

/-- The operator of a signed number is the sign, with or without a role. -/
theorem operator_of_sign {sign number : Node} (hchildren : n.children = [sign, number])
    (hsign : sign.isNamed = false ∧ sign.text = "-" ∧ sign.role ≠ "argument")
    (hrole : number.role ≠ "operator") : operator n = "-" := by
  have hfound : ((n.child? "operator").orElse fun _ => n.children.find? fun c => !c.isNamed)
      = some sign := by
    rw [Node.child?, hchildren]
    by_cases h : sign.role = "operator" <;> simp [h, hrole, hsign.1]
  rw [operator, hfound]
  simp only [hsign.2.1]
  decide

/-- A sign in front of a node of a known type. -/
theorem plain_of_sign {sign number : Node} {t : Ty} (hkind : n.kind = "unary_op_expression")
    (hchildren : n.children = [sign, number])
    (hsign : sign.isNamed = false ∧ sign.text = "-" ∧ sign.role ≠ "argument")
    (hnamed : number.isNamed = true) (hrole : number.role ≠ "operator")
    (ht : plain functions number = .ok t) : plain functions n = .ok (signed t) := by
  have hoperand : ((n.childBelow? "argument").orElse fun _ => n.namedBelow.getLast?).map Subtype.val
      = some number := by
    have hlast : n.namedBelow.getLast?.map Subtype.val = some number := by
      rw [← List.getLast?_map, Node.namedBelow_map_val, Node.namedChildren, hchildren]
      simp [hsign.1, hnamed]
    have hchild := Node.childBelow?_map_val n "argument"
    rw [Node.child?, hchildren] at hchild
    cases hbelow : n.childBelow? "argument" with
    | none => exact hlast
    | some x =>
      rw [hbelow] at hchild
      by_cases h : number.role = "argument"
      · simpa [h, hsign.2.2] using hchild
      · simp [h, hsign.2.2] at hchild
  obtain ⟨x, hx, rfl⟩ := Option.map_eq_some_iff.mp hoperand
  have hplan : plan functions n = .ofPart x signed := by
    simp only [plan, hkind, unaryPlan, operator_of_sign hchildren hsign hrole, hx]
    rfl
  rw [plain_eq, hplan, Plan.ofPart, List.map_singleton, List.mapM_cons, List.mapM_nil, ht]
  rfl

/-- A sign does not change the type of a number. -/
theorem plain_of_numberLiteral {kind : String} {k : ScalarKind} (hk : literalKind? kind = some k)
    (hsigned : signed (.scalar k false) = .scalar k false) {negative : Bool}
    (h : NumberLiteral kind negative n) : plain functions n = .ok (.scalar k false) := by
  cases negative with
  | false => exact plain_of_literalKind? (h.symm ▸ hk)
  | true =>
    obtain ⟨sign, number, hkind, hchildren, hsign, hnamed, hnumber, hrole⟩ := h
    rw [← hsigned]
    exact plain_of_sign hkind hchildren hsign hnamed hrole
      (plain_of_literalKind? (hnumber.symm ▸ hk))

/-! ### Rows of elements -/

/-- The kinds that a literal of a value can have. -/
def literalKinds : List String :=
  ["null", "boolean", "integer", "float", "unary_op_expression", "array_creation_expression",
    "string", "encapsed_string", "heredoc", "nowdoc"]

theorem kind_of_numberLiteral {kind : String} {negative : Bool}
    (h : NumberLiteral kind negative n) :
    n.kind = kind ∨ n.kind = "unary_op_expression" := by
  cases negative with
  | false => exact .inl h
  | true =>
    obtain ⟨_, _, hkind, -⟩ := h
    exact .inr hkind

theorem kind_of_stringLiteral (h : StringLiteral n) : n.kind ∈ literalKinds :=
  List.mem_append_right ["null", "boolean", "integer", "float", "unary_op_expression",
    "array_creation_expression"] h

/-- A literal of a value has one of the kinds of literals. -/
theorem kind_of_literal {v : Json} (h : Literal v n) : n.kind ∈ literalKinds := by
  cases v with
  | str s => exact kind_of_stringLiteral h
  | int i => rcases kind_of_numberLiteral h with h | h <;> simp [h, literalKinds]
  | float x => rcases kind_of_numberLiteral h with h | h <;> simp [h, literalKinds]
  | arr items => simp [h.1, literalKinds]
  | obj fields => simp [h.1, literalKinds]
  | _ => simp [show n.kind = _ from h, literalKinds]

/-- The entries of elements of an array literal. -/
def entriesOf (es : List n.Below) : List (Entry n) :=
  (es.filter fun e => e.1.kind == "array_element_initializer").filterMap Entry.ofElement?

/-- The elements give these types of keys and values, where the types of all their parts are taken
from one row. -/
def RowGives (functions : FunctionTypes) (es : List n.Below) (keys values : List Ty) : Prop :=
  ∃ ts, (((entriesOf es).flatMap Entry.parts).map Subtype.val).mapM (plain functions) = .ok ts ∧
    Entry.types (entriesOf es) ts = (keys, values)

theorem rowGives_nil : RowGives functions ([] : List n.Below) [] [] :=
  ⟨[], rfl, rfl⟩

private theorem literalKinds_spec : ∀ kind ∈ literalKinds,
    (kind != "comment" && kind != "by_ref") = true ∧ (kind == "variadic_unpacking") = false := by
  decide

/-- An element with one value is an entry without a key. -/
theorem ofElement?_single {e : n.Below} {v : Node} (h : e.1.namedChildren = [v])
    (hv : v.kind ∈ literalKinds) :
    ∃ value : n.Below, value.1 = v ∧ Entry.ofElement? e = some (.single value) := by
  rw [← Node.namedBelow_map_val] at h
  obtain ⟨p, hp, rfl⟩ := List.map_eq_singleton_iff.mp h
  obtain ⟨hpart, hunpacking⟩ := literalKinds_spec _ hv
  refine ⟨e.trans p, rfl, ?_⟩
  simp [Entry.ofElement?, hp, hpart, hunpacking]

/-- An element with two values is a key with a value. -/
theorem ofElement?_pair {e : n.Below} {k v : Node} (h : e.1.namedChildren = [k, v])
    (hk : k.kind ∈ literalKinds) (hv : v.kind ∈ literalKinds) :
    ∃ key value : n.Below, key.1 = k ∧ value.1 = v ∧
      Entry.ofElement? e = some (.pair key value) := by
  rw [← Node.namedBelow_map_val] at h
  obtain ⟨p, rest, hp, rfl, hrest⟩ := List.map_eq_cons_iff.mp h
  obtain ⟨q, rfl, rfl⟩ := List.map_eq_singleton_iff.mp hrest
  obtain ⟨hkey, hunpacking⟩ := literalKinds_spec _ hk
  obtain ⟨hvalue, -⟩ := literalKinds_spec _ hv
  refine ⟨e.trans p, e.trans q, rfl, rfl, ?_⟩
  simp [Entry.ofElement?, hp, hkey, hvalue, hunpacking]

/-- An element makes an entry in front of the others. -/
theorem entriesOf_cons {e : n.Below} (es : List n.Below) {entry : Entry n}
    (hkind : e.1.kind = "array_element_initializer") (he : Entry.ofElement? e = some entry) :
    entriesOf (e :: es) = entry :: entriesOf es := by
  rw [entriesOf, List.filter_cons_of_pos (by simp [hkind]), List.filterMap_cons_some he]
  rfl

/-- One more element in front, whose parts have known types. -/
theorem mapM_entriesOf_cons {e : n.Below} {es : List n.Below} {entry : Entry n} {us ts : List Ty}
    (hentries : entriesOf (e :: es) = entry :: entriesOf es)
    (hparts : (entry.parts.map Subtype.val).mapM (plain functions) = .ok us)
    (hts : (((entriesOf es).flatMap Entry.parts).map Subtype.val).mapM (plain functions) = .ok ts) :
    (((entriesOf (e :: es)).flatMap Entry.parts).map Subtype.val).mapM (plain functions)
      = .ok (us ++ ts) := by
  rw [hentries, List.flatMap_cons, List.map_append, List.mapM_append, hparts, hts]
  rfl

/-- An element without a key has an integer key. -/
theorem RowGives.single {e : n.Below} {es : List n.Below} {v : Node} {t : Ty}
    {keys values : List Ty} (hkind : e.1.kind = "array_element_initializer")
    (hparts : e.1.namedChildren = [v]) (hv : v.kind ∈ literalKinds) (ht : plain functions v = .ok t)
    (h : RowGives functions es keys values) :
    RowGives functions (e :: es) (.scalar .int false :: keys) (t :: values) := by
  obtain ⟨ts, hts, htypes⟩ := h
  obtain ⟨value, rfl, he⟩ := ofElement?_single hparts hv
  have hentries := entriesOf_cons es hkind he
  have hvalue :
      (((Entry.single value).parts).map Subtype.val).mapM (plain functions) = .ok [t] := by
    rw [Entry.parts, List.map_singleton, List.mapM_cons, ht]
    rfl
  refine ⟨[t] ++ ts, mapM_entriesOf_cons hentries hvalue hts, ?_⟩
  rw [hentries]
  simp [Entry.types, htypes]

/-- An element with a key has the types of key and value. -/
theorem RowGives.pair {e : n.Below} {es : List n.Below} {k v : Node} {s t : Ty}
    {keys values : List Ty} (hkind : e.1.kind = "array_element_initializer")
    (hparts : e.1.namedChildren = [k, v]) (hk : k.kind ∈ literalKinds) (hv : v.kind ∈ literalKinds)
    (hs : plain functions k = .ok s) (ht : plain functions v = .ok t)
    (h : RowGives functions es keys values) :
    RowGives functions (e :: es) (s :: keys) (t :: values) := by
  obtain ⟨ts, hts, htypes⟩ := h
  obtain ⟨key, value, rfl, rfl, he⟩ := ofElement?_pair hparts hk hv
  have hentries := entriesOf_cons es hkind he
  have hpair : (((Entry.pair key value).parts).map Subtype.val).mapM (plain functions)
      = .ok [s, t] := by
    rw [Entry.parts, List.map_cons, List.map_singleton, List.mapM_cons, List.mapM_cons, hs, ht]
    rfl
  refine ⟨[s, t] ++ ts, mapM_entriesOf_cons hentries hpair hts, ?_⟩
  rw [hentries]
  simp [Entry.types, htypes]

/-- The type of an array literal comes from the types of its rows. -/
theorem plain_of_rowGives (hkind : n.kind = "array_creation_expression") {keys values : List Ty}
    (h : RowGives functions n.namedBelow keys values) :
    plain functions n = .ok (arrayLiteral keys values) := by
  obtain ⟨ts, hts, htypes⟩ := h
  have hplan : plan functions n = arrayPlan n := by
    simp only [plan, hkind]
    rfl
  have hparts : (arrayPlan n).parts = (entriesOf n.namedBelow).flatMap Entry.parts := rfl
  have hcombine : (arrayPlan n).combine ts = .ok (arrayLiteral keys values) := by
    show Except.ok (arrayLiteral (Entry.types (entriesOf n.namedBelow) ts).1
      (Entry.types (entriesOf n.namedBelow) ts).2) = _
    rw [htypes]
  rw [plain_eq, hplan, hparts, hts]
  exact hcombine

/-! ### Literals have the types of their values -/

/-- An array literal whose keys are all of one type. -/
theorem arrayLiteral_replicate (k t : Ty) (ts : List Ty) :
    arrayLiteral (List.replicate (ts.length + 1) k) (t :: ts)
      = .keyed k (.merge (t :: ts)) false := by
  have hmerge : Ty.merge (List.replicate (ts.length + 1) k) = k := by
    rw [List.replicate_succ, Ty.merge, if_pos]
    simp
  show Ty.arrayOf (some (Ty.merge (List.replicate (ts.length + 1) k))) (.merge (t :: ts)) false = _
  rw [hmerge]
  rfl

mutual

/-- A literal has the type of its value, by induction on the value. -/
theorem plain_eq_typeOf (functions : FunctionTypes) :
    ∀ (v : Json) (n : Node), Literal v n → plain functions n = .ok v.typeOf
  | .null, n, h => plain_of_kind_null h
  | .bool _, n, h => plain_of_literalKind? (by rw [show n.kind = "boolean" from h]; rfl)
  | .int _, n, h => plain_of_numberLiteral (by rfl) rfl h
  | .float _, n, h => plain_of_numberLiteral (by rfl) rfl h
  | .str _, n, h => plain_of_stringLiteral h
  | .arr items, n, h => by
    have hrow := rowGives_items functions items n.namedBelow (by
      rw [Node.namedBelow_map_val]
      exact h.2)
    rw [plain_of_rowGives h.1 hrow]
    cases items with
    | nil => rfl
    | cons x xs =>
      rw [Json.typeOf, Json.typesOf, List.length_cons, arrayLiteral_replicate]
  | .obj fields, n, h => by
    have hrow := rowGives_fields functions fields n.namedBelow (by
      rw [Node.namedBelow_map_val]
      exact h.2)
    rw [plain_of_rowGives h.1 hrow]
    cases fields with
    | nil => rfl
    | cons f fields =>
      rw [Json.typeOf, Json.typesOfFields, List.length_cons, arrayLiteral_replicate]

/-- The items of a list have integer keys and their own types. -/
theorem rowGives_items (functions : FunctionTypes) {n : Node} :
    ∀ (items : List Json) (es : List n.Below), LiteralItems items (es.map Subtype.val) →
      RowGives functions es (List.replicate (Json.typesOf items).length (.scalar .int false))
        (Json.typesOf items)
  | [], es, h => by
    rw [LiteralItems, List.map_eq_nil_iff] at h
    rw [h]
    exact rowGives_nil
  | x :: xs, es, h => by
    rw [LiteralItems] at h
    obtain ⟨e, v, rest, hes, hkind, hparts, hv, hrest⟩ := h
    obtain ⟨e, es, rfl, rfl, rfl⟩ := List.map_eq_cons_iff.mp hes
    rw [Json.typesOf]
    exact (rowGives_items functions xs es hrest).single hkind hparts (kind_of_literal hv)
      (plain_eq_typeOf functions x v hv)

/-- The fields of an object have text keys and the types of their values. -/
theorem rowGives_fields (functions : FunctionTypes) {n : Node} :
    ∀ (fields : List (String × Json)) (es : List n.Below),
      LiteralFields fields (es.map Subtype.val) →
      RowGives functions es
        (List.replicate (Json.typesOfFields fields).length (.scalar .string false))
        (Json.typesOfFields fields)
  | [], es, h => by
    rw [LiteralFields, List.map_eq_nil_iff] at h
    rw [h]
    exact rowGives_nil
  | (_, x) :: fields, es, h => by
    rw [LiteralFields] at h
    obtain ⟨e, k, v, rest, hes, hkind, hparts, hk, hv, hrest⟩ := h
    obtain ⟨e, es, rfl, rfl, rfl⟩ := List.map_eq_cons_iff.mp hes
    rw [Json.typesOfFields]
    exact (rowGives_fields functions fields es hrest).pair hkind hparts (kind_of_stringLiteral hk)
      (kind_of_literal hv) (plain_of_stringLiteral hk) (plain_eq_typeOf functions x v hv)

end

/-- Every value has a literal, and inference gives each literal of it the type of the value. -/
theorem plain_literal (functions : FunctionTypes) (v : Json) :
    (∃ n, Literal v n) ∧ ∀ n, Literal v n → plain functions n = .ok v.typeOf :=
  ⟨⟨v.tree, v.literal_tree⟩, fun n hn => plain_eq_typeOf functions v n hn⟩

/-- A list of a negative number, an empty list and an object with a null, and its literal. -/
theorem plain_literal_nested :
    let v : Json := .arr [.float (.finite true 3 (-1)), .arr [], .obj [("a", .null), ("b", .int 7)]]
    Literal v v.tree ∧ plain [] v.tree = .ok (.keyed (.scalar .int false) (.union
      [.scalar .float false, .anyArray,
        .keyed (.scalar .string false) (.scalar .int true) false] false)
        false) := by
  intro v
  have htype : v.typeOf = .keyed (.scalar .int false) (.union
      [.scalar .float false, .anyArray,
        .keyed (.scalar .string false) (.scalar .int true) false] false)
        false := by decide +kernel
  exact ⟨v.literal_tree, htype ▸ (plain_literal [] v).2 v.tree v.literal_tree⟩

end Infer

end TypeFacts
