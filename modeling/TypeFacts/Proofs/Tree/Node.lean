import Mathlib.Tactic.Common
import TypeFacts.Tree.Cursor

/-!
# Nodes wherever they stand

What is found out about a node is kept by its kind and text, so it must not depend on the place of
the node. Two nodes are alike when they agree in kind and text and have equal subtrees
(`Node.Alike`), and then the parts found in one are alike those found in the other. A set of nodes
is consistent when kind and text determine the subtrees (`Node.Consistent`).

A search through a tree of a set that is closed under children stays in the set
(`Node.Closed.find`).
-/

namespace TypeFacts

/-! ### Places of children -/

/-- The places made for some children are places of these. -/
theorem Cursor.mem_of_mem_placesAfter {parent : Node} {above : List Frame} {before cs : List Node}
    {p : Cursor} (hp : p ∈ placesAfter parent above before cs) : p.node ∈ cs := by
  induction cs generalizing before with
  | nil => cases hp
  | cons d cs ih =>
    rw [placesAfter] at hp
    split_ifs at hp
    · rcases List.mem_cons.mp hp with rfl | hp
      · exact List.mem_cons_self
      · exact List.mem_cons_of_mem d (ih hp)
    · exact List.mem_cons_of_mem d (ih hp)

/-! ### Nodes without their places -/

namespace Node

mutual

/-- The node without its place and its faults. -/
def bare : Node → Node
  | mk kind named _ _ _ _ _ role text cs => mk kind named false false 0 0 0 role text (bareAll cs)

/-- The nodes without their places and faults. -/
def bareAll : List Node → List Node
  | [] => []
  | c :: cs => bare c :: bareAll cs

end

theorem bareAll_eq_map (cs : List Node) : bareAll cs = cs.map bare := by
  induction cs with
  | nil => rfl
  | cons c cs ih => rw [bareAll, ih, List.map_cons]

@[simp] theorem kind_bare (n : Node) : n.bare.kind = n.kind := by
  cases n; rfl

@[simp] theorem isNamed_bare (n : Node) : n.bare.isNamed = n.isNamed := by
  cases n; rfl

@[simp] theorem role_bare (n : Node) : n.bare.role = n.role := by
  cases n; rfl

@[simp] theorem text_bare (n : Node) : n.bare.text = n.text := by
  cases n; rfl

@[simp] theorem children_bare (n : Node) : n.bare.children = n.children.map bare := by
  cases n
  exact bareAll_eq_map _

/-- The nodes agree in kind and text and have equal subtrees, wherever they stand. -/
structure Alike (a b : Node) : Prop where
  kind : a.kind = b.kind
  text : a.text = b.text
  children : a.children.map bare = b.children.map bare

/-- Nodes that agree but for places and faults are alike. -/
theorem alike_of_bare_eq {a b : Node} (h : a.bare = b.bare) : Alike a b where
  kind := by simpa using congrArg kind h
  text := by simpa using congrArg text h
  children := by simpa using congrArg children h

/-- Nodes that occur and have one kind and text have equal subtrees. -/
def Consistent (Occurs : Node → Prop) : Prop :=
  ∀ a b, Occurs a → Occurs b → a.kind = b.kind → a.text = b.text →
    a.children.map bare = b.children.map bare

variable {a b : Node}

theorem find?_map_bare {p : Node → Bool} (hp : ∀ n, p n.bare = p n) (cs : List Node) :
    (cs.find? p).map bare = (cs.map bare).find? p := by
  have hcomp : p ∘ bare = p := funext hp
  rw [List.find?_map, hcomp]

/-- In nodes that are alike, searches that look at no places find the same. -/
theorem Alike.find? (h : Alike a b) {p : Node → Bool} (hp : ∀ n, p n.bare = p n) :
    (a.children.find? p).map bare = (b.children.find? p).map bare := by
  rw [find?_map_bare hp, find?_map_bare hp, h.children]

/-- Nodes that are alike have the same child in a role, but for places and faults. -/
theorem Alike.child? (h : Alike a b) (role : String) :
    (a.child? role).map bare = (b.child? role).map bare :=
  h.find? fun n => by rw [role_bare]

/-- They have the same named children. -/
theorem Alike.namedChildren (h : Alike a b) :
    a.namedChildren.map bare = b.namedChildren.map bare := by
  have hcomp : isNamed ∘ bare = isNamed := funext isNamed_bare
  have hmap : ∀ n : Node, n.namedChildren.map bare = (n.children.map bare).filter isNamed := by
    intro n
    rw [List.filter_map, hcomp, Node.namedChildren]
  rw [hmap, hmap, h.children]

theorem Alike.namedOf? (h : Alike a b) (kinds : List String) :
    (a.namedOf? kinds).map bare = (b.namedOf? kinds).map bare := by
  have hp : ∀ n : Node, kinds.contains n.bare.kind = kinds.contains n.kind := fun n => by
    rw [kind_bare]
  rw [Node.namedOf?, Node.namedOf?, find?_map_bare hp, find?_map_bare hp, h.namedChildren]

/-! ### Nodes that occur -/

/-- The nodes of a tree. -/
inductive Within (root : Node) : Node → Prop
  | root : Within root root
  | child {n c : Node} : Within root n → c ∈ n.children → Within root c

/-- A part of a part is a part. -/
theorem Within.trans {root n m : Node} (h : root.Within n) (h' : n.Within m) : root.Within m := by
  induction h' with
  | root => exact h
  | child _ hc ih => exact ih.child hc

/-- With a node occur the nodes below it. -/
def Closed (Occurs : Node → Prop) : Prop :=
  ∀ n, Occurs n → ∀ c ∈ n.children, Occurs c

/-- The parts of a node are closed under children. -/
theorem closed_within (n : Node) : Closed n.Within :=
  fun _ hm _ hc => hm.child hc

/-- The nodes of the trees of a collection. -/
def Among (Trees : Node → Prop) (n : Node) : Prop :=
  ∃ root, Trees root ∧ root.Within n

/-- The parts of several trees are closed under children. -/
theorem closed_among (Trees : Node → Prop) : Closed (Among Trees) := by
  rintro n ⟨root, hroot, hn⟩ c hc
  exact ⟨root, hroot, hn.child hc⟩

theorem among_root {Trees : Node → Prop} {root : Node} (h : Trees root) : Among Trees root :=
  ⟨root, h, .root⟩

section Closed

variable {Occurs : Node → Prop} {n c : Node}

/-- A child in a role occurs where its node does. -/
theorem Closed.child? (h : Closed Occurs) (hn : Occurs n) {role : String}
    (hc : n.child? role = some c) : Occurs c :=
  h n hn c (Node.mem_children_of_child? hc)

theorem Closed.namedChildren (h : Closed Occurs) (hn : Occurs n) (hc : c ∈ n.namedChildren) :
    Occurs c :=
  h n hn c (Node.mem_children_of_mem_named hc)

theorem Closed.namedOf? (h : Closed Occurs) (hn : Occurs n) {kinds : List String}
    (hc : n.namedOf? kinds = some c) : Occurs c :=
  h n hn c (Node.mem_children_of_namedOf? hc)

theorem Closed.placesBelow (h : Closed Occurs) {p q : Cursor} (hp : Occurs p.node)
    (hq : q ∈ p.namedChildren) : Occurs q.node :=
  h p.node hp q.node (Cursor.mem_of_mem_placesAfter hq)

/-- A search visits only places of nodes that occur. -/
theorem Closed.search (h : Closed Occurs) {kinds : List String} {places : List Cursor}
    (hplaces : ∀ p ∈ places, Occurs p.node) : ∀ q ∈ Cursor.search kinds places, Occurs q.node := by
  -- the places still to visit are children of visited ones, or were to be visited before
  fun_induction Cursor.search kinds places with
  | case1 => exact fun q hq => by cases hq
  | case2 p rest _ ih =>
    have hp := hplaces p List.mem_cons_self
    intro q hq
    rcases List.mem_cons.mp hq with rfl | hq
    · exact hp
    · refine ih (fun r hr => ?_) q hq
      rcases List.mem_append.mp hr with hr | hr
      · exact h.placesBelow hp hr
      · exact hplaces r (List.mem_cons_of_mem p hr)
  | case3 p rest _ ih =>
    refine ih fun r hr => ?_
    rcases List.mem_append.mp hr with hr | hr
    · exact h.placesBelow (hplaces p List.mem_cons_self) hr
    · exact hplaces r (List.mem_cons_of_mem p hr)

/-- What is found below a place occurs where the place does. -/
theorem Closed.find (h : Closed Occurs) {p : Cursor} (hp : Occurs p.node) {kinds : List String} :
    ∀ q ∈ p.find kinds, Occurs q.node :=
  h.search fun r hr => by rwa [List.mem_singleton.mp hr]

end Closed

/-! ### All nodes of a tree -/

/-- The nodes of a tree are the root and the nodes of the parts. -/
theorem within_iff {n f : Node} : n.Within f ↔ f = n ∨ ∃ c ∈ n.children, c.Within f := by
  constructor
  · intro h
    induction h with
    | root => exact .inl rfl
    | @child m d _ hd ih =>
      rcases ih with rfl | ⟨c, hc, hm⟩
      · exact .inr ⟨d, hd, .root⟩
      · exact .inr ⟨c, hc, hm.child hd⟩
  · rintro (rfl | ⟨c, hc, hf⟩)
    · exact .root
    · exact (Within.root.child hc).trans hf

mutual

/-- All nodes of a tree, each with the nodes around it: parents before children, earlier
siblings first. -/
def occurrences (around : List Node) : Node → List (List Node × Node)
  | n@(mk _ _ _ _ _ _ _ _ _ cs) => (around, n) :: occurrencesIn (n :: around) cs

/-- All nodes of a row of trees, each with the nodes around it. -/
def occurrencesIn (around : List Node) : List Node → List (List Node × Node)
  | [] => []
  | c :: cs => occurrences around c ++ occurrencesIn around cs

end

theorem occurrencesIn_eq_flatMap (around cs : List Node) :
    occurrencesIn around cs = cs.flatMap (occurrences around) := by
  induction cs with
  | nil => rfl
  | cons c cs ih => rw [occurrencesIn, ih, List.flatMap_cons]

/-- A node occurs itself, and then the nodes below each child do. -/
theorem occurrences_eq (around : List Node) (n : Node) :
    n.occurrences around = (around, n) :: n.children.flatMap (occurrences (n :: around)) := by
  cases n
  rw [occurrences, occurrencesIn_eq_flatMap]
  rfl

/-- The parts of a node are the nodes that occur in it. -/
theorem within_iff_mem_occurrences (around : List Node) (n m : Node) :
    n.Within m ↔ m ∈ (n.occurrences around).map Prod.snd := by
  have hparts : (∃ c ∈ n.children, c.Within m) ↔
      ∃ c ∈ n.children, m ∈ (c.occurrences (n :: around)).map Prod.snd := by
    refine exists_congr fun c => and_congr_right fun hc => ?_
    have := sizeOf_lt_of_mem hc
    exact within_iff_mem_occurrences (n :: around) c m
  rw [within_iff, hparts, occurrences_eq, List.map_cons, List.mem_cons, List.map_flatMap,
    List.mem_flatMap]
termination_by sizeOf n

instance (n : Node) (P : Node → Prop) [DecidablePred P] : Decidable (∀ m, n.Within m → P m) :=
  decidable_of_iff (∀ m ∈ (n.occurrences []).map Prod.snd, P m)
    (forall_congr' fun m => by rw [within_iff_mem_occurrences [] n m])

/-! ### Consistent trees -/

/-- Trees are consistent if more trees are. -/
theorem Consistent.mono {Trees Trees' : Node → Prop} (h : Consistent (Among Trees'))
    (hroots : ∀ root, Trees root → Trees' root) : Consistent (Among Trees) := by
  have hsub : ∀ n, Among Trees n → Among Trees' n := fun n ⟨root, hroot, hn⟩ =>
    ⟨root, hroots root hroot, hn⟩
  exact fun a b ha hb => h a b (hsub a ha) (hsub b hb)

/-- The parts of listed trees can be listed. -/
theorem among_mem_iff {roots : List Node} {n : Node} : Among (· ∈ roots) n ↔
    n ∈ roots.flatMap fun root => (root.occurrences []).map Prod.snd := by
  simp only [Among, List.mem_flatMap, ← within_iff_mem_occurrences]

instance (roots : List Node) : Decidable (Consistent (Among (· ∈ roots))) :=
  let nodes := roots.flatMap fun root => (root.occurrences []).map Prod.snd
  decidable_of_iff (∀ a ∈ nodes, ∀ b ∈ nodes, a.kind = b.kind → a.text = b.text →
      a.children.map bare = b.children.map bare) <| by
    simp only [nodes, ← among_mem_iff]
    exact ⟨fun h a b ha hb => h a ha b hb, fun h a ha b hb => h a b ha hb⟩

end Node

end TypeFacts
