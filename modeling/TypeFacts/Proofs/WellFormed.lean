import TypeFacts.Proofs.Infer.Memo
import TypeFacts.Proofs.TypeText.Closure
import TypeFacts.Snapshot.Convert

/-!
# Every type that is made is well formed

Types come from five places: they are read from texts, described by reflection, found for values,
inferred for expressions, and merged from others. All of them are well formed at every depth
(`wellFormed_of_made`).

* The conversion of reflected types and the types of values recurse over their data, and merge what
  they find on the way (`ReflectedTy.yields_toTy`, `Json.wellFormed_typeOf`).
* What a plan of inference makes of types inherits from them whatever all well-formed types have and
  merging keeps (`Infer.yields_combine`). So inference keeps well-formed types only, one call after
  the other, whether calls succeed or fail (`Infer.MemoReached.holds`), and what it finds again is
  well formed, too.
-/

namespace TypeFacts

namespace Ty

/-- A condition that all well-formed types meet, and that types which are made of others inherit. -/
structure Inherited (P : Ty → Prop) : Prop where
  of_wellFormed : ∀ {t}, t.WellFormed → P t
  clearFlag : ∀ {t}, P t → P (t.withNullable false)
  array : ∀ {v}, P v → P (array v false)
  keyed : ∀ {k v}, P k → P v → P (keyed k v false)
  merge : ∀ {ts}, (∀ t ∈ ts, P t) → P (merge ts)

/-- Being well formed is inherited by all that inference makes of types. -/
theorem inherited_wellFormed : Inherited WellFormed :=
  ⟨id, wellFormed_withNullable.mpr, id, And.intro, merge_wellFormed⟩

section Inherited

variable {P : Ty → Prop} (hP : Inherited P) {ts : List Ty}
include hP

/-- The first of some types has what they all have; with no type it is the one of all values. -/
theorem Inherited.headD (h : ∀ t ∈ ts, P t) : P (ts.headD mixed) := by
  cases ts with
  | nil => exact hP.of_wellFormed wellFormed_mixed
  | cons t ts => exact h t List.mem_cons_self

/-- So has the type at an index. -/
theorem Inherited.getD (h : ∀ t ∈ ts, P t) (i : Nat) : P (ts.getD i mixed) := by
  rw [List.getD_eq_getElem?_getD]
  cases hi : ts[i]? with
  | none => exact hP.of_wellFormed wellFormed_mixed
  | some t => exact h t (List.mem_of_getElem? hi)

/-- An array inherits what its keys and its values have. -/
theorem Inherited.arrayOf {key : Option Ty} {v : Ty} (hkey : ∀ k ∈ key, P k) (hv : P v) :
    P (arrayOf key v false) := by
  cases key with
  | none => exact hP.array hv
  | some k => exact hP.keyed (hkey k rfl) hv

end Inherited

/-- A name gives a well-formed type unless it is empty. -/
theorem yields_ofName (name : String) (n : Bool) : Yields (ofName name n) WellFormed := by
  unfold ofName
  split_ifs with hempty
  · exact yields_error _
  · exact yields_ok fun h => hempty (by simp [h])

end Ty

/-- A text that is read gives a well-formed type, also where `mixed` stands for none. -/
theorem TypeText.yields_parse_getD (text : String) :
    Yields (parse text) fun o => (o.getD .mixed).WellFormed := by
  intro o ho
  cases o with
  | none => exact Ty.wellFormed_mixed
  | some t => exact (wellFormed_of_parse ho).1

/-! ### Reflected types -/

namespace ReflectedTy

/-- Allowing null keeps a type well formed. -/
theorem wellFormed_allowing {t : Ty} (h : t.WellFormed) (n : Bool) : (allowing n t).WellFormed := by
  unfold allowing
  split_ifs
  · exact Ty.wellFormed_withNullable.mpr h
  · exact h

mutual

/-- Every reflected type that can be converted gives a well-formed one; members of a union are
converted one by one. -/
theorem yields_toTy : ∀ d : ReflectedTy, Yields d.toTy Ty.WellFormed
  | named none n => by
    rw [toTy]
    exact yields_ok (wellFormed_allowing Ty.wellFormed_mixed n)
  | named (some s) n => by
    rw [toTy]
    exact (TypeText.yields_parse_getD s).bind fun o ho => yields_ok (wellFormed_allowing ho n)
  | union ms n => by
    rw [toTy]
    refine (yields_toTys ms).bind fun ts hts => yields_ok ?_
    exact wellFormed_allowing (Ty.merge_wellFormed hts) n
  | intersection _ => by
    rw [toTy]
    exact yields_ok Ty.wellFormed_mixed

theorem yields_toTys : ∀ ds : List ReflectedTy, Yields (toTys ds) fun ts => ∀ t ∈ ts, t.WellFormed
  | [] => by
    rw [toTys]
    exact yields_ok fun t ht => by cases ht
  | d :: ds => by
    rw [toTys]
    refine (yields_toTy d).bind fun t ht => (yields_toTys ds).bind fun ts hts => yields_ok ?_
    exact List.forall_mem_cons.mpr ⟨ht, hts⟩

end

end ReflectedTy

/-! ### Values -/

namespace Json

mutual

/-- The type of a value is well formed; lists and objects merge the types of what they hold. -/
theorem wellFormed_typeOf : ∀ v : Json, v.typeOf.WellFormed
  | .null => Ty.wellFormed_null
  | .bool _ => trivial
  | .int _ => trivial
  | .float _ => trivial
  | .str _ => trivial
  | .arr [] => Ty.wellFormed_anyArray
  | .arr (x :: xs) => by
    rw [typeOf]
    refine ⟨trivial, Ty.merge_wellFormed (List.forall_mem_cons.mpr ⟨?_, ?_⟩)⟩
    · exact wellFormed_typeOf x
    · exact wellFormed_typesOf xs
  | .obj [] => Ty.wellFormed_anyArray
  | .obj ((_, x) :: fields) => by
    rw [typeOf]
    refine ⟨trivial, Ty.merge_wellFormed (List.forall_mem_cons.mpr ⟨?_, ?_⟩)⟩
    · exact wellFormed_typeOf x
    · exact wellFormed_typesOfFields fields

theorem wellFormed_typesOf : ∀ xs : List Json, ∀ t ∈ typesOf xs, t.WellFormed
  | [] => fun t ht => by cases ht
  | x :: xs => by
    rw [typesOf]
    exact List.forall_mem_cons.mpr ⟨wellFormed_typeOf x, wellFormed_typesOf xs⟩

theorem wellFormed_typesOfFields :
    ∀ fields : List (String × Json), ∀ t ∈ typesOfFields fields, t.WellFormed
  | [] => fun t ht => by cases ht
  | (_, x) :: fields => by
    rw [typesOfFields]
    exact List.forall_mem_cons.mpr ⟨wellFormed_typeOf x, wellFormed_typesOfFields fields⟩

end

end Json

/-! ### Expressions -/

namespace Infer

variable {functions : FunctionTypes} {n : Node} {ts : List Ty}

/-- A name in the source gives a well-formed type. -/
theorem yields_namedBy (text : String) : Yields (namedBy text) Ty.WellFormed :=
  (TypeText.yields_parse_getD text).map fun _ ho => ho

/-- A cast gives a well-formed type. -/
theorem yields_castType (text : String) : Yields (castType text) Ty.WellFormed := by
  unfold castType
  split
  · exact yields_ok Ty.wellFormed_null
  · exact yields_ok Ty.wellFormed_null
  · exact yields_ok (Ty.wellFormed_scalar _ _)
  · exact yields_ok (Ty.wellFormed_scalar _ _)
  · exact yields_namedBy _

/-- The creation of an object gives a well-formed type. -/
theorem yields_creationType (n : Node) : Yields (creationType n) Ty.WellFormed := by
  unfold creationType
  split
  · exact Ty.yields_ofName _ _
  · exact yields_ok Ty.wellFormed_mixed

theorem wellFormed_arithmetic (l r : Ty) : (arithmetic l r).WellFormed := by
  unfold arithmetic
  split_ifs
  · trivial
  · trivial
  · exact Ty.wellFormed_mixed

theorem wellFormed_signed (t : Ty) : (signed t).WellFormed := by
  unfold signed
  split
  · trivial
  · trivial
  · exact Ty.wellFormed_mixed

section Inherited

variable {P : Ty → Prop} (hP : Ty.Inherited P)
include hP

/-- A coalescing operator leaves types that were there, with null taken out. -/
theorem inherited_coalesce : ∀ {ts : List Ty}, (∀ t ∈ ts, P t) → ∀ t ∈ coalesce ts, P t
  | [], h => h
  | [_], h => h
  | t :: u :: ts, h => by
    obtain ⟨ht, hrest⟩ := List.forall_mem_cons.mp h
    rw [coalesce]
    · exact List.forall_mem_cons.mpr ⟨hP.clearFlag ht, inherited_coalesce hrest⟩
    · exact fun hnil => by cases hnil

/-- The types of an array literal are dealt out to keys and values, and none is new. -/
theorem Entry.inherited_types : ∀ (es : List (Entry n)) {ts : List Ty}, (∀ t ∈ ts, P t) →
    (∀ t ∈ (types es ts).1, P t) ∧ ∀ t ∈ (types es ts).2, P t
  | [], _, _ => by simp [types]
  | unpacked :: es, _, h => by
    obtain ⟨hkeys, hvalues⟩ := inherited_types es h
    exact ⟨hkeys, List.forall_mem_cons.mpr ⟨hP.of_wellFormed Ty.wellFormed_mixed, hvalues⟩⟩
  | single _ :: es, _, h => by
    obtain ⟨hkeys, hvalues⟩ := inherited_types es fun t ht => h t (List.mem_of_mem_tail ht)
    exact ⟨List.forall_mem_cons.mpr ⟨hP.of_wellFormed trivial, hkeys⟩,
      List.forall_mem_cons.mpr ⟨hP.headD h, hvalues⟩⟩
  | pair _ _ :: es, _, h => by
    obtain ⟨hkeys, hvalues⟩ := inherited_types es fun t ht => h t (List.mem_of_mem_drop ht)
    exact ⟨List.forall_mem_cons.mpr ⟨hP.headD h, hkeys⟩,
      List.forall_mem_cons.mpr ⟨hP.getD h 1, hvalues⟩⟩

/-- The type of an array literal inherits what keys and values have. -/
theorem inherited_arrayLiteral {keys values : List Ty} (hkeys : ∀ t ∈ keys, P t)
    (hvalues : ∀ t ∈ values, P t) : P (arrayLiteral keys values) := by
  unfold arrayLiteral
  split
  · exact hP.of_wellFormed Ty.wellFormed_anyArray
  · refine hP.arrayOf (fun k hk => ?_) (hP.merge hvalues)
    split_ifs at hk
    · cases hk
    · rw [← Option.some.inj hk]
      exact hP.merge hkeys

/-- The type of a call is one of a known function or that of all values. -/
theorem inherited_callType (hfunctions : ∀ f ∈ functions, P f.2) (n : Node) :
    P (callType functions n) := by
  have hmixed := hP.of_wellFormed Ty.wellFormed_mixed
  have hget : ∀ name, P ((Pairs.get? name functions).getD .mixed) := by
    intro name
    cases hname : Pairs.get? name functions with
    | none => exact hmixed
    | some t => exact hfunctions _ (Pairs.mem_of_get? hname)
  unfold callType
  split
  · split_ifs
    · exact hget _
    · exact hmixed
  · exact hmixed

/-! ### Plans -/

theorem yields_const {r : Except Ty.Fault Ty} (hr : Yields r Ty.WellFormed) (ts : List Ty) :
    Yields ((Plan.const r : Plan n).combine ts) P :=
  fun t ht => hP.of_wellFormed (hr t ht)

theorem yields_known {t : Ty} (ht : t.WellFormed) (ts : List Ty) :
    Yields ((Plan.known t : Plan n).combine ts) P :=
  yields_const hP (yields_ok ht) ts

/-- A plan of one part inherits what the part has, if its function passes it on. -/
theorem yields_ofPart {part : n.Below} {f : Ty → Ty} (hf : ∀ t : Ty, P t → P (f t))
    (h : ∀ t ∈ ts, P t) : Yields ((Plan.ofPart part f).combine ts) P :=
  yields_ok (hf _ (hP.headD h))

/-- Binary operators pass on what their operands have. -/
theorem yields_binaryPlan (h : ∀ t ∈ ts, P t) : Yields ((binaryPlan n).combine ts) P := by
  simp only [binaryPlan]
  split_ifs
  · split
    · exact yields_ok (hP.of_wellFormed (wellFormed_arithmetic _ _))
    · exact yields_known hP Ty.wellFormed_mixed ts
  · exact yields_known hP (Ty.wellFormed_scalar _ _) ts
  · exact yields_known hP (Ty.wellFormed_scalar _ _) ts
  · exact yields_known hP (Ty.wellFormed_scalar _ _) ts
  · exact yields_ok (hP.merge (inherited_coalesce hP h))
  · exact yields_known hP Ty.wellFormed_mixed ts

/-- Unary operators pass on what their operand has. -/
theorem yields_unaryPlan (h : ∀ t ∈ ts, P t) : Yields ((unaryPlan n).combine ts) P := by
  simp only [unaryPlan]
  split_ifs
  · exact yields_known hP (Ty.wellFormed_scalar _ _) ts
  · exact yields_known hP (Ty.wellFormed_scalar _ _) ts
  · split
    · exact yields_ofPart hP (fun t _ => hP.of_wellFormed (wellFormed_signed t)) h
    · exact yields_known hP Ty.wellFormed_mixed ts
  · split
    · exact yields_ofPart hP (fun t ht => ht) h
    · exact yields_known hP Ty.wellFormed_mixed ts

/-- Array literals pass on what their entries have. -/
theorem yields_arrayPlan (h : ∀ t ∈ ts, P t) : Yields ((arrayPlan n).combine ts) P := by
  obtain ⟨hkeys, hvalues⟩ := Entry.inherited_types hP
    ((n.namedBelow.filter fun e => e.1.kind == "array_element_initializer").filterMap
      Entry.ofElement?) h
  exact yields_ok (inherited_arrayLiteral hP hkeys hvalues)

/-- What a plan makes of types inherits from them. -/
theorem yields_combine (hfunctions : ∀ f ∈ functions, P f.2) (h : ∀ t ∈ ts, P t) :
    Yields ((plan functions n).combine ts) P := by
  unfold plan
  split
  · exact yields_known hP (Ty.wellFormed_scalar _ _) ts
  · split
    · exact yields_known hP Ty.wellFormed_null ts
    · exact yields_arrayPlan hP h
    · exact yields_binaryPlan hP h
    · exact yields_ok (hP.merge h)
    · exact yields_unaryPlan hP h
    · split
      · exact yields_const hP (yields_castType _) ts
      · exact yields_known hP Ty.wellFormed_mixed ts
    · split
      · exact yields_ofPart hP (fun t ht => ht) h
      · exact yields_known hP Ty.wellFormed_mixed ts
    · exact yields_ok (inherited_callType hP hfunctions n)
    · exact yields_const hP (yields_creationType n) ts
    · split_ifs
      · exact yields_const hP (yields_namedBy _) ts
      · exact yields_known hP Ty.wellFormed_mixed ts

/-- Types that plain recursion finds inherit from the result types of functions. -/
theorem yields_plain (hfunctions : ∀ f ∈ functions, P f.2) (n : Node) :
    Yields (plain functions n) P := by
  rw [plain_eq]
  refine Yields.bind (Yields.mapM fun c hc => ?_) fun ts hts => yields_combine hP hfunctions hts
  obtain ⟨d, -, rfl⟩ := List.mem_map.mp hc
  have hlt := d.2
  exact yields_plain hfunctions d.1
termination_by sizeOf n
decreasing_by exact hlt

end Inherited

/-! ### Inference with a memo -/

/-- With a memo of well-formed types, inference gives a well-formed type and keeps no others. -/
theorem ensures_infer (hfunctions : ∀ f ∈ functions, f.2.WellFormed) (n : Node) :
    Ensures (Memo.Holds fun _ t => t.WellFormed) Ty.WellFormed (infer functions n) := by
  intro m hm
  rw [infer_run]
  cases h : m.find? (memoKey n) with
  | some stored => exact ⟨yields_ok (hm (memoKey n) stored h), hm⟩
  | none =>
    have hparts : Ensures (Memo.Holds fun _ t => t.WellFormed) (fun ts => ∀ t ∈ ts, t.WellFormed)
        ((plan functions n).parts.mapM fun c => infer functions c.1) :=
      Ensures.mapM fun c _ =>
        have := c.2
        ensures_infer hfunctions c.1
    refine hparts.bind (fun ts hts m hm => ?_) m hm
    have hcombine := yields_combine (n := n) Ty.inherited_wellFormed hfunctions hts
    cases ht : (plan functions n).combine ts with
    | error e => exact ⟨yields_error e, hm⟩
    | ok t => exact ⟨yields_ok (hcombine t ht), hm.store (hcombine t ht)⟩
termination_by sizeOf n

/-- The memos that calls leave behind, one after the other, from an empty one. -/
inductive MemoReached (functions : FunctionTypes) : TypeMemo → Prop
  | empty : MemoReached functions .empty
  | infer {m : TypeMemo} (h : MemoReached functions m) (n : Node) :
      MemoReached functions ((infer functions n).run m).2
  | clear {m : TypeMemo} (h : MemoReached functions m) : MemoReached functions m.clear

/-- All that calls leave behind is well formed, from the empty memo on. -/
theorem MemoReached.holds (hfunctions : ∀ f ∈ functions, f.2.WellFormed) {m : TypeMemo}
    (h : MemoReached functions m) : m.Holds fun _ t => t.WellFormed := by
  induction h with
  | empty => exact Memo.holds_empty
  | infer _ n ih => exact (ensures_infer hfunctions n _ ih).2
  | clear _ _ => exact Memo.holds_clear _

/-- All functions of the language have well-formed types. -/
theorem wellFormed_builtinFunctions : ∀ f ∈ builtinFunctions, f.2.WellFormed := by
  have hrow : ∀ (names : List String) {t : Ty}, t.WellFormed →
      ∀ f ∈ names.map (·, t), f.2.WellFormed := by
    intro names t ht f hf
    obtain ⟨name, -, rfl⟩ := List.mem_map.mp hf
    exact ht
  intro f hf
  simp only [builtinFunctions, List.mem_append] at hf
  rcases hf with (((hf | hf) | hf) | hf) | hf
  · exact hrow _ (Ty.wellFormed_scalar _ _) f hf
  · exact hrow _ (Ty.wellFormed_scalar _ _) f hf
  · exact hrow _ (Ty.wellFormed_scalar _ _) f hf
  · exact hrow _ (Ty.wellFormed_scalar _ _) f hf
  · exact hrow _ Ty.wellFormed_anyArray f hf

/-- So have all known functions if the further ones have. -/
theorem wellFormed_functionTypes {further : Table Ty} (h : ∀ f ∈ further.entries, f.2.WellFormed) :
    ∀ f ∈ functionTypes further, f.2.WellFormed := by
  intro f hf
  rcases List.mem_append.mp hf with hf | hf
  · obtain ⟨g, hg, rfl⟩ := List.mem_map.mp (List.mem_reverse.mp hf)
    exact h g hg
  · exact wellFormed_builtinFunctions f hf

end Infer

/-! ### All types -/

/-- Every type that is read, described, found for a value, inferred after any calls, or merged is
well formed; in a type that is read, moreover, no name begins with a backslash. -/
theorem wellFormed_of_made (further : Table Ty) (hfurther : ∀ f ∈ further.entries, f.2.WellFormed) :
    (∀ text t, TypeText.parse text = .ok (some t) →
      t.WellFormed ∧ t.AllNames TypeText.Unslashed) ∧
    (∀ (d : ReflectedTy) t, d.toTy = .ok t → t.WellFormed) ∧
    (∀ v : Json, v.typeOf.WellFormed) ∧
    (∀ m, Infer.MemoReached (Infer.functionTypes further) m → ∀ n t,
      ((Infer.infer (Infer.functionTypes further) n).run m).1 = .ok t → t.WellFormed) ∧
    ∀ ts : List Ty, (∀ t ∈ ts, t.WellFormed) → (Ty.merge ts).WellFormed := by
  refine ⟨fun text t => TypeText.wellFormed_of_parse, fun d => ReflectedTy.yields_toTy d,
    Json.wellFormed_typeOf, fun m hm n => ?_, fun ts => Ty.merge_wellFormed⟩
  have hfunctions := Infer.wellFormed_functionTypes hfurther
  exact (Infer.ensures_infer hfunctions n m (hm.holds hfunctions)).1

/-- A function whose result is described by a union. -/
def pickTable : Table Ty :=
  Table.ofList [("Pick", .merge [.named "B" false, .null, .named "A" false])]

/-- A call of the function. -/
def pickCall : Node :=
  .mk "function_call_expression" true false false 0 1 1 "" "pick()"
    [.mk "name" true false false 0 1 1 "function" "pick" []]

/-- The union of two classes, or null. -/
def eitherOrNull : Ty := .union [.named "A" false, .named "B" false] true

/-- One union, read, described by reflection, and found again by the second of two calls. -/
theorem wellFormed_of_made_union :
    let functions := Infer.functionTypes pickTable
    let kept := ((Infer.infer functions pickCall).run .empty).2
    let reflected : ReflectedTy := .union [.named (some "\\B") false, .named (some "A") false] true
    (TypeText.parse "?A|\\B" = .ok (some eitherOrNull) ∧ eitherOrNull.AllNames TypeText.Unslashed) ∧
      (reflected.toTy = .ok eitherOrNull ∧ eitherOrNull.WellFormed) ∧
      Infer.MemoReached functions kept ∧
      ((Infer.infer functions pickCall).run kept).1 = .ok eitherOrNull ∧
        eitherOrNull.WellFormed := by
  intro functions kept reflected
  have hkept : Infer.MemoReached functions kept := .infer .empty pickCall
  have hmade : (TypeText.parse "?A|\\B" = .ok (some eitherOrNull) ∧
      reflected.toTy = .ok eitherOrNull) ∧
      ((Infer.infer functions pickCall).run kept).1 = .ok eitherOrNull := by
    rw [Infer.infer_run]
    decide +kernel
  have hfurther : ∀ f ∈ pickTable.entries, f.2.WellFormed := by
    intro f hf
    rw [List.mem_singleton.mp (Table.mem_of_mem_entries_ofList hf)]
    have hall : ∀ t ∈ [Ty.named "B" false, .null, .named "A" false], t.WellFormed := by
      simp [Ty.null, Ty.WellFormed]
    exact Ty.merge_wellFormed hall
  obtain ⟨hread, hdescribed, -, hinferred, -⟩ := wellFormed_of_made pickTable hfurther
  exact ⟨⟨hmade.1.1, (hread _ _ hmade.1.1).2⟩, ⟨hmade.1.2, hdescribed _ _ hmade.1.2⟩,
    hkept, hmade.2,
    hinferred kept hkept pickCall _ hmade.2⟩

end TypeFacts
