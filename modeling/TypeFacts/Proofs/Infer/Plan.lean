import Mathlib.Data.List.Basic
import TypeFacts.Infer.Plan
import TypeFacts.Proofs.Tree.Node

/-!
# Plans of nodes that are alike

Nodes that are alike have the same plan: it asks for the types of parts that are alike, in the same
order, and draws the same conclusion (`Infer.plan_congr`). And a plan asks only for nodes of the
tree (`Node.Closed.plan`).
-/

namespace TypeFacts

/-- Searches that agree first and then agree in the second place. -/
theorem map_orElse_congr {α β γ : Type} {f : α → γ} {g : β → γ} {o p : Option α} {o' p' : Option β}
    (h : o.map f = o'.map g) (h' : p.map f = p'.map g) :
    (o.orElse fun _ => p).map f = (o'.orElse fun _ => p').map g := by
  cases o <;> cases o' <;> simp_all

/-- Searches that agree find nothing both, or the same both. -/
theorem map_eq_map_cases {α β γ : Type} {f : α → γ} {g : β → γ} {o : Option α} {o' : Option β}
    (h : o.map f = o'.map g) :
    (o = none ∧ o' = none) ∨ ∃ c d, o = some c ∧ o' = some d ∧ f c = g d := by
  cases o <;> cases o' <;> simp_all

namespace Node

variable {a b : Node}

/-! ### Smaller nodes -/

/-- A smaller node without its place. -/
def Below.bare {n : Node} (c : n.Below) : Node := c.1.bare

/-- The smaller child in a role is the child in the role. -/
theorem childBelow?_map_val (n : Node) (role : String) :
    (n.childBelow? role).map Subtype.val = n.child? role := by
  unfold childBelow?
  split
  · next c h => exact h.symm
  · next h => exact h.symm

/-- The smaller named children are the named children. -/
theorem namedBelow_map_val (n : Node) : n.namedBelow.map Subtype.val = n.namedChildren := by
  rw [namedBelow, List.map_map]
  exact List.attach_map_subtype_val n.namedChildren

theorem childBelow?_map_bare (n : Node) (role : String) :
    (n.childBelow? role).map Below.bare = (n.child? role).map bare := by
  rw [← childBelow?_map_val, Option.map_map]
  rfl

theorem namedBelow_map_bare (n : Node) :
    n.namedBelow.map Below.bare = n.namedChildren.map bare := by
  rw [← namedBelow_map_val, List.map_map]
  rfl

/-- Nodes that are alike have children in a role that agree but for places and faults. -/
theorem Alike.childBelow? (h : Alike a b) (role : String) :
    (a.childBelow? role).map Below.bare = (b.childBelow? role).map Below.bare := by
  rw [childBelow?_map_bare, childBelow?_map_bare, h.child?]

/-- Nodes that are alike have named children that agree but for places and faults. -/
theorem Alike.namedBelow (h : Alike a b) :
    a.namedBelow.map Below.bare = b.namedBelow.map Below.bare := by
  rw [namedBelow_map_bare, namedBelow_map_bare, h.namedChildren]

end Node

namespace Infer

open Node (Alike)

variable {a b : Node}

/-! ### Plans of nodes that are alike -/

/-- The plans ask for the types of the same parts and draw the same conclusion from them. -/
structure Plan.Same (p : Plan a) (q : Plan b) : Prop where
  parts : p.parts.map Node.Below.bare = q.parts.map Node.Below.bare
  combine : p.combine = q.combine

theorem Plan.same_const (r : Except Ty.Fault Ty) :
    Plan.Same (.const r : Plan a) (.const r : Plan b) :=
  ⟨rfl, rfl⟩

theorem Plan.same_known (t : Ty) : Plan.Same (.known t : Plan a) (.known t : Plan b) :=
  ⟨rfl, rfl⟩

/-- Plans of one part are the same if the parts agree but for places and faults. -/
theorem Plan.same_ofPart {c : a.Below} {d : b.Below} (h : c.bare = d.bare) (f : Ty → Ty) :
    Plan.Same (.ofPart c f) (.ofPart d f) :=
  ⟨congrArg (fun n => [n]) h, rfl⟩

theorem map_bare_toList {o : Option a.Below} {o' : Option b.Below}
    (h : o.map Node.Below.bare = o'.map Node.Below.bare) :
    o.toList.map Node.Below.bare = o'.toList.map Node.Below.bare := by
  rw [← Option.toList_map, ← Option.toList_map, h]

/-- Nodes that are alike have the same operator. -/
theorem operator_congr (h : Alike a b) : operator a = operator b := by
  have hpart :
      ((a.child? "operator").orElse fun _ => a.children.find? fun c => !c.isNamed).map Node.bare =
        ((b.child? "operator").orElse fun _ => b.children.find? fun c => !c.isNamed).map
          Node.bare :=
    map_orElse_congr (h.child? "operator") (h.find? fun n => by rw [Node.isNamed_bare])
  unfold operator
  rcases map_eq_map_cases hpart with ⟨ha, hb⟩ | ⟨c, d, ha, hb, hcd⟩
  · simp only [ha, hb]
  · simp only [ha, hb, (Node.alike_of_bare_eq hcd).text]

/-- Binary operators of nodes that are alike have the same plan. -/
theorem binaryPlan_congr (h : Alike a b) : Plan.Same (binaryPlan a) (binaryPlan b) := by
  simp only [binaryPlan, operator_congr h]
  have hleft := h.childBelow? "left"
  have hright := h.childBelow? "right"
  split_ifs
  · rcases map_eq_map_cases hleft with ⟨ha, hb⟩ | ⟨l, l', ha, hb, hl⟩
    · simp only [ha, hb]
      exact Plan.same_known _
    · rcases map_eq_map_cases hright with ⟨ha', hb'⟩ | ⟨r, r', ha', hb', hr⟩
      · simp only [ha, hb, ha', hb']
        exact Plan.same_known _
      · simp only [ha, hb, ha', hb']
        refine ⟨?_, rfl⟩
        simp only [List.map_cons, List.map_nil, hl, hr]
  · exact Plan.same_known _
  · exact Plan.same_known _
  · exact Plan.same_known _
  · refine ⟨?_, rfl⟩
    rw [List.map_append, List.map_append, map_bare_toList hleft, map_bare_toList hright]
  · exact Plan.same_known _

/-- So have unary operators. -/
theorem unaryPlan_congr (h : Alike a b) : Plan.Same (unaryPlan a) (unaryPlan b) := by
  have hlast : a.namedBelow.getLast?.map Node.Below.bare
      = b.namedBelow.getLast?.map Node.Below.bare := by
    rw [← List.getLast?_map, ← List.getLast?_map, h.namedBelow]
  simp only [unaryPlan, operator_congr h]
  split_ifs
  · exact Plan.same_known _
  · exact Plan.same_known _
  all_goals
    rcases map_eq_map_cases (map_orElse_congr (h.childBelow? "argument") hlast) with
      ⟨ha, hb⟩ | ⟨c, d, ha, hb, hcd⟩
    · simp only [ha, hb]
      exact Plan.same_known _
    · simp only [ha, hb]
      exact Plan.same_ofPart hcd _

/-- So have conditional expressions. -/
theorem ternaryPlan_congr (h : Alike a b) : Plan.Same (ternaryPlan a) (ternaryPlan b) := by
  refine ⟨?_, rfl⟩
  have hfirst := map_orElse_congr (h.childBelow? "body") (h.childBelow? "condition")
  rw [ternaryPlan, ternaryPlan, List.map_append, List.map_append, map_bare_toList hfirst,
    map_bare_toList (h.childBelow? "alternative")]

/-! ### Array literals -/

/-- The parts of an entry without their places. -/
def Entry.bare {n : Node} (e : Entry n) : List Node :=
  e.parts.map Node.Below.bare

/-- The key and value types depend on the number of parts of each entry only. -/
theorem Entry.types_congr : ∀ {es : List (Entry a)} {es' : List (Entry b)},
    es.map Entry.bare = es'.map Entry.bare → Entry.types es = Entry.types es'
  | [], [], _ => rfl
  | e :: es, e' :: es', h => by
    obtain ⟨he, hes⟩ := List.cons.inj h
    have hlen := congrArg List.length he
    have ih := types_congr hes
    funext ts
    -- entries of two forms differ in the number of their parts
    cases e <;> cases e' <;> simp [Entry.bare, Entry.parts] at hlen <;> simp only [Entry.types, ih]

/-- Choosing nodes by what does not depend on their places. -/
theorem filter_map_bare {l : List a.Below} {l' : List b.Below}
    (h : l.map Node.Below.bare = l'.map Node.Below.bare) {p : Node → Bool}
    (hp : ∀ n, p n.bare = p n) :
    (l.filter fun c => p c.1).map Node.Below.bare
      = (l'.filter fun c => p c.1).map Node.Below.bare := by
  have hmap : ∀ {n : Node} (l : List n.Below),
      (l.filter fun c => p c.1).map Node.Below.bare = (l.map Node.Below.bare).filter p := by
    intro n l
    rw [List.filter_map]
    refine congrArg (List.map _) (List.filter_congr fun c _ => ?_)
    exact (hp c.1).symm
  rw [hmap, hmap, h]

/-- Elements of an array literal that are alike make the same entry. -/
theorem Entry.ofElement?_congr {e : a.Below} {e' : b.Below} (h : e.bare = e'.bare) :
    (Entry.ofElement? e).map Entry.bare = (Entry.ofElement? e').map Entry.bare := by
  have hps := filter_map_bare (Node.alike_of_bare_eq h).namedBelow
    (p := fun n => n.kind != "comment" && n.kind != "by_ref") fun n => by simp only [Node.kind_bare]
  unfold ofElement?
  simp only
  split
  · next hnil =>
    rw [hnil, List.map_nil, eq_comm, List.map_eq_nil_iff] at hps
    simp only [hps]
    rfl
  · next p rest hcons =>
    rw [hcons, List.map_cons, eq_comm, List.map_eq_cons_iff] at hps
    obtain ⟨p', rest', hcons', hp, hrest⟩ := hps
    have hlast : rest.getLast?.map Node.Below.bare = rest'.getLast?.map Node.Below.bare := by
      rw [← List.getLast?_map, ← List.getLast?_map, hrest]
    simp only [hcons', (Node.alike_of_bare_eq hp).kind]
    split_ifs
    · rfl
    · rcases map_eq_map_cases hlast with ⟨ha, hb⟩ | ⟨c, d, ha, hb, hcd⟩
      · simp only [ha, hb]
        exact congrArg (fun n => some [n]) hp.symm
      · simp only [ha, hb]
        exact congrArg some (congrArg₂ (fun n m => [n, m]) hp.symm hcd)

theorem filterMap_ofElement?_congr : ∀ {l : List a.Below} {l' : List b.Below},
    l.map Node.Below.bare = l'.map Node.Below.bare →
      (l.filterMap Entry.ofElement?).map Entry.bare = (l'.filterMap Entry.ofElement?).map Entry.bare
  | [], [], _ => rfl
  | e :: l, e' :: l', h => by
    obtain ⟨he, hl⟩ := List.cons.inj h
    have ih := filterMap_ofElement?_congr hl
    rcases map_eq_map_cases (Entry.ofElement?_congr he) with ⟨ha, hb⟩ | ⟨c, d, ha, hb, hcd⟩
    · rw [List.filterMap_cons_none ha, List.filterMap_cons_none hb, ih]
    · rw [List.filterMap_cons_some ha, List.filterMap_cons_some hb, List.map_cons, List.map_cons,
        ih, hcd]

/-- Array literals that are alike have the same plan. -/
theorem arrayPlan_congr (h : Alike a b) : Plan.Same (arrayPlan a) (arrayPlan b) := by
  have hentries := filterMap_ofElement?_congr (filter_map_bare h.namedBelow
    (p := fun n => n.kind == "array_element_initializer") fun n => by rw [Node.kind_bare])
  refine ⟨?_, ?_⟩
  · have hparts : ∀ {n : Node} (es : List (Entry n)),
        (es.flatMap Entry.parts).map Node.Below.bare = (es.map Entry.bare).flatten := by
      intro n es
      rw [List.map_flatMap]
      rfl
    simp only [arrayPlan, hparts, hentries]
  · simp only [arrayPlan, Entry.types_congr hentries]

/-! ### All nodes -/

/-- Calls that are alike have the same type. -/
theorem callType_congr (functions : FunctionTypes) (h : Alike a b) :
    callType functions a = callType functions b := by
  unfold callType
  rcases map_eq_map_cases (h.child? "function") with ⟨ha, hb⟩ | ⟨c, d, ha, hb, hcd⟩
  · simp only [ha, hb]
  · simp only [ha, hb, (Node.alike_of_bare_eq hcd).kind, (Node.alike_of_bare_eq hcd).text]

/-- Creations that are alike have the same type. -/
theorem creationType_congr (h : Alike a b) : creationType a = creationType b := by
  unfold creationType
  rcases map_eq_map_cases (h.namedOf? ["name", "qualified_name"]) with
    ⟨ha, hb⟩ | ⟨c, d, ha, hb, hcd⟩
  · simp only [ha, hb]
  · simp only [ha, hb, (Node.alike_of_bare_eq hcd).text]

/-- Nodes that are alike have the same plan. -/
theorem plan_congr (functions : FunctionTypes) (h : Alike a b) :
    Plan.Same (plan functions a) (plan functions b) := by
  unfold plan
  rw [h.kind]
  split
  · exact Plan.same_known _
  · split
    · exact Plan.same_known _
    · exact arrayPlan_congr h
    · exact binaryPlan_congr h
    · exact ternaryPlan_congr h
    · exact unaryPlan_congr h
    · rcases map_eq_map_cases (map_orElse_congr (h.child? "type") (h.namedOf? ["cast_type"])) with
        ⟨ha, hb⟩ | ⟨c, d, ha, hb, hcd⟩
      · simp only [ha, hb]
        exact Plan.same_known _
      · simp only [ha, hb, (Node.alike_of_bare_eq hcd).text]
        exact Plan.same_const _
    · -- the first part that is no comment, as the head of all such parts
      have hfind : ∀ n : Node, (n.namedBelow.find? fun c => c.1.kind != "comment")
          = (n.namedBelow.filter fun c => c.1.kind != "comment").head? := fun n =>
        List.head?_filter.symm
      have hpart := filter_map_bare h.namedBelow (p := fun n => n.kind != "comment") fun n => by
        rw [Node.kind_bare]
      have hhead := congrArg List.head? hpart
      rw [List.head?_map, List.head?_map, ← hfind, ← hfind] at hhead
      rcases map_eq_map_cases hhead with ⟨ha, hb⟩ | ⟨c, d, ha, hb, hcd⟩
      · simp only [ha, hb]
        exact Plan.same_known _
      · simp only [ha, hb]
        exact Plan.same_ofPart hcd _
    · rw [callType_congr functions h]
      exact Plan.same_known _
    · rw [creationType_congr h]
      exact Plan.same_const _
    · split_ifs
      · rw [h.text]
        exact Plan.same_const _
      · exact Plan.same_known _

end Infer

/-! ### Parts of plans -/

section Parts

open Infer (Entry FunctionTypes)

variable {Occurs : Node → Prop} {n : Node}

/-- A child in a role occurs where its node does. -/
theorem Node.Closed.childBelow? (h : Node.Closed Occurs) (hn : Occurs n) {role : String}
    {c : n.Below} (hc : n.childBelow? role = some c) : Occurs c.1 := by
  unfold Node.childBelow? at hc
  split at hc
  · next d hd =>
    rw [← Option.some.inj hc]
    exact h n hn d (Node.mem_children_of_child? hd)
  · cases hc

/-- So does a named child. -/
theorem Node.Closed.namedBelow (h : Node.Closed Occurs) (hn : Occurs n) {c : n.Below}
    (hc : c ∈ n.namedBelow) : Occurs c.1 := by
  obtain ⟨⟨d, hd⟩, -, rfl⟩ := List.mem_map.mp hc
  exact h n hn d (Node.mem_children_of_mem_named hd)

/-- The parts of the plan for a binary operator occur where the operator does. -/
theorem Node.Closed.binaryPlan (h : Node.Closed Occurs) (hn : Occurs n) :
    ∀ c ∈ (Infer.binaryPlan n).parts, Occurs c.1 := by
  intro c hc
  simp only [Infer.binaryPlan] at hc
  split_ifs at hc
  · split at hc
    · next l r hl hr =>
      rcases List.mem_pair.mp hc with rfl | rfl
      · exact h.childBelow? hn hl
      · exact h.childBelow? hn hr
    · cases hc
  · cases hc
  · cases hc
  · cases hc
  · rcases List.mem_append.mp hc with hc | hc
    · exact h.childBelow? hn (Option.mem_toList.mp hc)
    · exact h.childBelow? hn (Option.mem_toList.mp hc)
  · cases hc

theorem Node.Closed.unaryPlan (h : Node.Closed Occurs) (hn : Occurs n) :
    ∀ c ∈ (Infer.unaryPlan n).parts, Occurs c.1 := by
  intro c hc
  have hoperand : ∀ d, ((n.childBelow? "argument").orElse fun _ => n.namedBelow.getLast?) = some d →
      Occurs d.1 := by
    intro d hd
    cases hchild : n.childBelow? "argument" with
    | some e =>
      rw [hchild] at hd
      rw [← Option.some.inj hd]
      exact h.childBelow? hn hchild
    | none =>
      rw [hchild] at hd
      exact h.namedBelow hn (List.mem_of_getLast? hd)
  simp only [Infer.unaryPlan] at hc
  split_ifs at hc
  · cases hc
  · cases hc
  all_goals
    split at hc
    · next d hd =>
      rw [List.mem_singleton.mp hc]
      exact hoperand d hd
    · cases hc

theorem Node.Closed.ternaryPlan (h : Node.Closed Occurs) (hn : Occurs n) :
    ∀ c ∈ (Infer.ternaryPlan n).parts, Occurs c.1 := by
  intro c hc
  rcases List.mem_append.mp hc with hc | hc
  · have hfirst := Option.mem_toList.mp hc
    cases hbody : n.childBelow? "body" with
    | some d =>
      rw [hbody] at hfirst
      rw [← Option.some.inj hfirst]
      exact h.childBelow? hn hbody
    | none =>
      rw [hbody] at hfirst
      exact h.childBelow? hn hfirst
  · exact h.childBelow? hn (Option.mem_toList.mp hc)

/-- The parts of an entry stand below the element that makes it. -/
theorem Node.Closed.ofElement? (h : Node.Closed Occurs) {e : n.Below} (he : Occurs e.1)
    {entry : Entry n} (hentry : Entry.ofElement? e = some entry) :
    ∀ c ∈ entry.parts, Occurs c.1 := by
  have hmem : ∀ d ∈ e.1.namedBelow.filter fun p => p.1.kind != "comment" && p.1.kind != "by_ref",
      Occurs d.1 := fun d hd => h.namedBelow he (List.mem_filter.mp hd).1
  intro c hc
  unfold Entry.ofElement? at hentry
  simp only at hentry
  split at hentry
  · cases hentry
  · next p rest hps =>
    rw [hps] at hmem
    split_ifs at hentry
    · rw [← Option.some.inj hentry] at hc
      cases hc
    · split at hentry
      · rw [← Option.some.inj hentry] at hc
        rw [List.mem_singleton.mp hc]
        exact hmem p List.mem_cons_self
      · next last hlast =>
        rw [← Option.some.inj hentry] at hc
        rcases List.mem_pair.mp hc with rfl | rfl
        · exact hmem p List.mem_cons_self
        · exact hmem last (List.mem_cons_of_mem p (List.mem_of_getLast? hlast))

/-- The parts of the plan for an array literal occur where the literal does. -/
theorem Node.Closed.arrayPlan (h : Node.Closed Occurs) (hn : Occurs n) :
    ∀ c ∈ (Infer.arrayPlan n).parts, Occurs c.1 := by
  intro c hc
  obtain ⟨entry, hentry, hc⟩ := List.mem_flatMap.mp hc
  obtain ⟨e, he, hofe⟩ := List.mem_filterMap.mp hentry
  exact h.ofElement? (h.namedBelow hn (List.mem_filter.mp he).1) hofe c hc

/-- A plan asks for nodes below the node only. -/
theorem Node.Closed.plan (h : Node.Closed Occurs) (hn : Occurs n) (functions : FunctionTypes) :
    ∀ c ∈ (Infer.plan functions n).parts, Occurs c.1 := by
  unfold Infer.plan
  split
  · exact fun c hc => by cases hc
  · split
    · exact fun c hc => by cases hc
    · exact h.arrayPlan hn
    · exact h.binaryPlan hn
    · exact h.ternaryPlan hn
    · exact h.unaryPlan hn
    · split <;> exact fun c hc => by cases hc
    · split
      · next d hd =>
        intro c hc
        rw [List.mem_singleton.mp hc]
        exact h.namedBelow hn (List.mem_of_find?_eq_some hd)
      · exact fun c hc => by cases hc
    · exact fun c hc => by cases hc
    · exact fun c hc => by cases hc
    · split_ifs <;> exact fun c hc => by cases hc

end Parts

end TypeFacts
