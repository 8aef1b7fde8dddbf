import TypeFacts.Proofs.Outline.Shape
import TypeFacts.Proofs.Tree.Traversal

/-!
# Declarations in order

The classes and functions of an outline are read from the nodes that a search finds, one by one.
Each of them has the name and the line of its node, and a node without a name is passed over. So
they stand in the order of the traversal of the tree, those inside of others among them, and the
methods of a class stand in the order of its members (`Outline.inOrder_readTree`).

`Outline.find_eq_preorder` says all of this together: a search is the traversal, and the lists of
declarations come in its order.
-/

namespace TypeFacts

/-- A name and a line. -/
abbrev Heading := String × Option Nat

/-- The name and the line of a declaration, if it has a name. -/
def Node.heading? (n : Node) : Option Heading :=
  n.name?.map fun name => (name, some n.line)

/-- The headings of the methods among the members of a class. -/
def Node.methodHeadings (members : List Node) : List Heading :=
  (members.filter (·.kind == "method_declaration")).filterMap heading?

/-- The members of a class. -/
def Node.members (n : Node) : List Node :=
  ((n.child? "body").map namedChildren).getD []

/-- The heading of a class and those of its methods. -/
def Node.classHeadings? (n : Node) : Option (Heading × List Heading) :=
  n.heading?.map fun heading => (heading, methodHeadings n.members)

/-- The heading of a function. -/
def FunctionOutline.heading (f : FunctionOutline) : Heading :=
  (f.name, f.line)

/-- The heading of a class and those of its methods. -/
def ClassOutline.headings (c : ClassOutline) : Heading × List Heading :=
  ((c.shortName, c.line), c.methods.map FunctionOutline.heading)

namespace Outline

open Infer (FunctionTypes)

variable {functions : FunctionTypes}

/-! ### Functions -/

/-- A function is read under its own heading. -/
theorem heading_readFunction (scope : Scope) (owner : Option String) (c : Cursor) :
    Always (fun r => r.map FunctionOutline.heading = c.node.heading?)
      (readFunction functions scope owner c) := by
  unfold readFunction
  simp only
  split
  · next hname => exact ensures_pure (by rw [Node.heading?, hname]; rfl)
  · next name hname =>
    refine (always_true _).bind fun parameters _ => (always_true _).bind fun declared _ => ?_
    exact ensures_pure (by rw [Node.heading?, hname]; rfl)

/-! ### Classes -/

/-- The headings of a class with more methods. -/
def withMethods (headings : Heading × List Heading) (more : List Heading) :
    Heading × List Heading :=
  (headings.1, headings.2 ++ more)

/-- A member leaves the heading of a class as it is, and adds its own if it is a method. -/
theorem headings_readMember (cls : ClassOutline) (c : Cursor) :
    Always (fun cls' => cls'.headings = withMethods cls.headings (Node.methodHeadings [c.node]))
      (readMember functions cls c) := by
  have hother : c.node.kind ≠ "method_declaration" →
      ∀ cls' : ClassOutline, cls'.headings = cls.headings →
        cls'.headings = withMethods cls.headings (Node.methodHeadings [c.node]) := by
    intro hkind cls' h
    rw [h]
    simp [withMethods, Node.methodHeadings, hkind]
  unfold readMember
  split
  · next hkind =>
    refine (heading_readFunction cls.scope (some cls.name) c).bind fun r hr => ?_
    have hmethod : Node.methodHeadings [c.node] = (r.map FunctionOutline.heading).toList := by
      rw [hr]
      cases hname : c.node.heading? <;> simp [Node.methodHeadings, hkind, hname]
    cases r with
    | none => exact ensures_pure (by rw [hmethod]; simp [withMethods])
    | some m => exact ensures_pure (by rw [hmethod]; simp [withMethods, ClassOutline.headings])
  · next hkind => exact (always_true _).bind fun ps _ =>
      ensures_pure (hother (by simp [hkind]) _ rfl)
  · next hkind => exact (always_true _).bind fun ks _ =>
      ensures_pure (hother (by simp [hkind]) _ rfl)
  · next hkind => exact (always_true _).bind fun k _ =>
      ensures_pure (hother (by simp [hkind]) _ rfl)
  · next hkind => exact ensures_pure (hother (by simp [hkind]) _ rfl)
  · next hkind _ _ _ _ => exact ensures_pure (hother hkind _ rfl)

/-- Members add the headings of methods, one after the other. -/
theorem headings_members (places : List Cursor) (cls : ClassOutline) :
    Always (fun cls' => cls'.headings
        = withMethods cls.headings (Node.methodHeadings (places.map Cursor.node)))
      (places.foldlM (readMember functions) cls) := by
  induction places generalizing cls with
  | nil => exact ensures_pure (by simp [withMethods, Node.methodHeadings])
  | cons c places ih =>
    rw [List.foldlM_cons]
    refine (headings_readMember cls c).bind fun cls' hcls' => (ih cls').imp fun cls'' h => ?_
    have hsplit : Node.methodHeadings ((c :: places).map Cursor.node)
        = Node.methodHeadings [c.node] ++ Node.methodHeadings (places.map Cursor.node) := by
      rw [Node.methodHeadings, Node.methodHeadings, Node.methodHeadings, ← List.filterMap_append,
        ← List.filter_append]
      rfl
    rw [h, hcls', hsplit, withMethods, withMethods, withMethods, List.append_assoc]

theorem headings_readClause (cls : ClassOutline) (n : Node) :
    (readClause cls n).headings = cls.headings := by
  unfold readClause
  simp only
  split_ifs
  · rfl
  · split <;> rfl
  · rfl
  · rfl

theorem headings_classHeader (c : Cursor) (shortName : String) :
    (classHeader c shortName).headings = ((shortName, some c.node.line), []) :=
  List.foldlRecOn _ readClause
    (motive := fun cls => cls.headings = ((shortName, some c.node.line), [])) rfl
    fun cls h n _ => (headings_readClause cls n).trans h

theorem map_node_memberPlaces (c : Cursor) : (memberPlaces c).map Cursor.node = c.node.members := by
  unfold memberPlaces Node.members
  split
  · next body hbody =>
    rw [hbody]
    exact Cursor.map_node_namedChildren ⟨body, []⟩
  · next hbody =>
    rw [hbody]
    rfl

/-- A class is read under its heading, with those of its methods. -/
theorem headings_readClass (c : Cursor) :
    Always (fun r => r.map ClassOutline.headings = c.node.classHeadings?)
      (readClass functions c) := by
  unfold readClass
  split
  · next hname => exact ensures_pure (by rw [Node.classHeadings?, Node.heading?, hname]; rfl)
  · next shortName hname =>
    refine (headings_members (memberPlaces c) (classHeader c shortName)).bind fun cls hcls => ?_
    refine ensures_pure ?_
    rw [Node.classHeadings?, Node.heading?, hname, Option.map_some, hcls, headings_classHeader,
      map_node_memberPlaces]
    rfl

/-! ### Files -/

/-- What is kept of found places one by one is kept of the nodes in the order of the traversal. -/
theorem filterMap_find {α β : Type} {g : Node → Option β} {g' : α → β} {root : Node}
    {kinds : List String} {results : List (Option α)}
    (h : results.map (Option.map g') = ((Cursor.ofRoot root).find kinds).map fun c => g c.node) :
    (results.filterMap id).map g'
      = (root.preorder.filter fun n => kinds.contains n.kind).filterMap g := by
  have hnodes := Cursor.map_node_find (Cursor.ofRoot root) kinds
  calc (results.filterMap id).map g'
      = (results.map (Option.map g')).filterMap id := by
        rw [List.map_filterMap, List.filterMap_map]
        rfl
    _ = (((Cursor.ofRoot root).find kinds).map Cursor.node).filterMap g := by
        rw [h, List.filterMap_map, List.filterMap_map]
        rfl
    _ = (root.preorder.filter fun n => kinds.contains n.kind).filterMap g := congrArg _ hnodes

/-- The classes and functions of a file stand in the order of the traversal, and the methods of a
class in the order of its members. -/
structure InOrder (root : Node) (o : FileOutline) : Prop where
  classes : o.classes.map ClassOutline.headings
    = (root.preorder.filter fun n => Node.classKinds.contains n.kind).filterMap Node.classHeadings?
  functions : o.functions.map FunctionOutline.heading
    = (root.preorder.filter fun n => ["function_definition"].contains n.kind).filterMap
      Node.heading?

/-- What is read of a file is in the order of the source. -/
theorem inOrder_readTree (root : Node) : Always (InOrder root) (readTree functions root) := by
  refine (Ensures.mapM_map fun c _ => headings_readClass c).bind fun classes hclasses => ?_
  refine (Ensures.mapM_map fun c _ => heading_readFunction c.scope none c).bind fun free hfree => ?_
  exact ensures_pure ⟨filterMap_find hclasses, filterMap_find hfree⟩

/-- A search through a tree is its traversal. The loop with its stack ends after one step for each
node that can be reached through named children; it finds those of the kinds, each once, in the
order of the traversal: a node before what is below it, and what is in an earlier child before what
is in a later one. Where the ranges of the tree lie in each other and side by side, this is the
order of the source; and the classes and functions of an outline come in this order, nested ones
among them. -/
theorem find_eq_preorder (root : Node) (kinds : List String) :
    let found := (Cursor.ofRoot root).find kinds
    let after := fun k => (Cursor.Walk.step kinds)^[k] ⟨[Cursor.ofRoot root], []⟩
    (∀ k, (after k).stack = [] ↔ root.preorder.length ≤ k) ∧
    (∀ k, (after k).stack = [] → (after k).found = found) ∧
    found.map Cursor.node = (root.preorder.filter fun n => kinds.contains n.kind) ∧
    (∀ c, c ∈ found ↔ c.node.kind ∈ kinds ∧ (Cursor.ofRoot root).Reaches c) ∧
    found.Nodup ∧ found.Pairwise Cursor.Precedes ∧
    (∀ source shape, shape.Ranged → root = Node.ofShape source shape →
      found.Pairwise fun c d => c.node.start ≤ d.node.start ∧ c.node.line ≤ d.node.line) ∧
    ∀ functions types o, ((readTree functions root).run types).1 = .ok o → InOrder root o := by
  intro found after
  have hnodes : found.map Cursor.node = root.preorder.filter fun n => kinds.contains n.kind :=
    Cursor.map_node_find (Cursor.ofRoot root) kinds
  have hpairs : found.Pairwise Cursor.Precedes := Cursor.pairwise_find (Cursor.ofRoot root) kinds
  refine ⟨Cursor.Walk.stack_eq_nil_iff kinds _, fun k => Cursor.Walk.found_of_stack_eq_nil, hnodes,
    fun c => Cursor.mem_find_iff_reaches, hpairs.imp Cursor.Precedes.ne, hpairs, ?_, ?_⟩
  · rintro source shape hranged rfl
    exact Cursor.pairwise_start_find hranged kinds
  · exact fun functions types o hread => (inOrder_readTree root types trivial).1 o hread

/-- A named part of a shape. -/
def shapeAt (kind role : String) (start stop : Nat) (children : List Shape) : Shape :=
  .mk kind true false false start stop role children

/-- A class inside of a function, and a class with a method on the next line. -/
def nestedShape : Shape :=
  shapeAt "program" "" 0 47 [
    shapeAt "function_definition" "" 0 23 [
      shapeAt "name" "name" 9 10 [],
      shapeAt "compound_statement" "body" 12 23 [
        shapeAt "class_declaration" "" 13 22 [shapeAt "name" "name" 19 20 []]]],
    shapeAt "class_declaration" "" 24 47 [
      shapeAt "name" "name" 30 31 [],
      shapeAt "declaration_list" "body" 31 47 [
        shapeAt "method_declaration" "" 32 46 [shapeAt "name" "name" 41 42 []]]]]

theorem nestedShape_ranged : nestedShape.Ranged := by
  have hname : ∀ start stop, start ≤ stop → (shapeAt "name" "name" start stop []).Ranged :=
    fun start stop h => .mk h (by simp) .nil (by simp)
  refine .mk (by decide) (by decide) (by decide)
    (List.forall_mem_cons.mpr ⟨?_, List.forall_mem_singleton.mpr ?_⟩)
  · refine .mk (by decide) (by decide) (by decide)
      (List.forall_mem_cons.mpr ⟨hname 9 10 (by decide), List.forall_mem_singleton.mpr ?_⟩)
    refine .mk (by decide) (by decide) (by decide) (List.forall_mem_singleton.mpr ?_)
    exact .mk (by decide) (by decide) (by decide)
      (List.forall_mem_singleton.mpr (hname 19 20 (by decide)))
  · refine .mk (by decide) (by decide) (by decide)
      (List.forall_mem_cons.mpr ⟨hname 30 31 (by decide), List.forall_mem_singleton.mpr ?_⟩)
    refine .mk (by decide) (by decide) (by decide) (List.forall_mem_singleton.mpr ?_)
    exact .mk (by decide) (by decide) (by decide)
      (List.forall_mem_singleton.mpr (hname 41 42 (by decide)))

/-- The class inside of the function comes first, as it does in the source. -/
theorem find_eq_preorder_nested :
    let root :=
      Node.ofShape (Utf8.encode "function f(){class B{}}\nclass A{function g(){}}") nestedShape
    let found := (Cursor.ofRoot root).find Node.classKinds
    nestedShape.Ranged ∧ found.map (fun c => (c.node.start, c.node.line)) = [(13, 1), (24, 2)] ∧
    (found.Pairwise fun c d => c.node.start ≤ d.node.start ∧ c.node.line ≤ d.node.line) ∧
    ∃ o, ((readTree [] root).run Memo.empty).1 = .ok o ∧
      o.classes.map ClassOutline.headings
        = [(("B", some 1), []), (("A", some 2), [("g", some 2)])] ∧
      o.functions.map FunctionOutline.heading = [("f", some 1)] := by
  intro root found
  obtain ⟨-, -, hnodes, -, -, -, hsource, hread⟩ := find_eq_preorder root Node.classKinds
  have hruns : ((readTree [] root).run Memo.empty).1.isOk = true ∧
      (root.preorder.filter fun n => Node.classKinds.contains n.kind).filterMap Node.classHeadings?
        = [(("B", some 1), []), (("A", some 2), [("g", some 2)])] ∧
      (root.preorder.filter fun n => ["function_definition"].contains n.kind).filterMap
        Node.heading?
        = [("f", some 1)] := by
    decide +kernel
  refine ⟨nestedShape_ranged, ?_, hsource _ _ nestedShape_ranged rfl, ?_⟩
  · have hmap : found.map (fun c => (c.node.start, c.node.line))
        = (found.map Cursor.node).map fun n => (n.start, n.line) := by
      rw [List.map_map]
      rfl
    rw [hmap, hnodes]
    decide
  · cases ho : ((readTree [] root).run Memo.empty).1 with
    | error e =>
      rw [ho] at hruns
      cases hruns.1
    | ok o =>
      have horder := hread [] Memo.empty o ho
      exact ⟨o, rfl, horder.classes.trans hruns.2.1, horder.functions.trans hruns.2.2⟩

end Outline

end TypeFacts
