import Mathlib.Data.List.Induction
import Mathlib.Logic.Relation
import TypeFacts.Proofs.Tree.Node

/-!
# Paths in a syntax tree

A path goes down from a node and gives at each step the number of the child that comes next.
`Node.at?` is the node at its end, `Cursor.below?` the place with all that stands above it and
before it. The places that a search from the root finds are those of nodes of the right kinds at the
ends of paths through named nodes (`Cursor.mem_find_iff`).
-/

namespace TypeFacts

namespace Node

variable {n m : Node} {p q path : List Nat}

/-- The node at the end of a path. -/
def at? (n : Node) (path : List Nat) : Option Node :=
  path.foldlM (fun n i => n.children[i]?) n

@[simp] theorem at?_nil (n : Node) : n.at? [] = some n := rfl

/-- A path leads into a child first. -/
theorem at?_cons (n : Node) (i : Nat) (path : List Nat) :
    n.at? (i :: path) = n.children[i]?.bind (·.at? path) := rfl

/-- A path can be gone in two stretches. -/
theorem at?_append (n : Node) (p q : List Nat) : n.at? (p ++ q) = (n.at? p).bind (·.at? q) :=
  List.foldlM_append

/-- The last step of a path leads to a child. -/
theorem at?_concat (n : Node) (path : List Nat) (i : Nat) :
    n.at? (path ++ [i]) = (n.at? path).bind (·.children[i]?) := by
  rw [at?_append]
  cases n.at? path with
  | none => rfl
  | some m => exact Option.bind_fun_some (m.children[i]?)

/-- On the way to a node there are nodes everywhere. -/
theorem exists_at?_of_begins (hq : q <+: path) (h : n.at? path = some m) :
    ∃ d, n.at? q = some d := by
  obtain ⟨rest, rfl⟩ := hq
  rw [at?_append] at h
  obtain ⟨d, hd, -⟩ := Option.bind_eq_some_iff.mp h
  exact ⟨d, hd⟩

/-- A path leads to a part of the node. -/
theorem within_of_at? (h : n.at? path = some m) : n.Within m := by
  induction path using List.reverseRecOn generalizing m with
  | nil =>
    rw [← Option.some.inj h]
    exact .root
  | append_singleton path i ih =>
    rw [at?_concat] at h
    obtain ⟨d, hd, hm⟩ := Option.bind_eq_some_iff.mp h
    exact (ih hd).child (List.mem_of_getElem? hm)

/-- The path goes through named nodes, apart from where it begins. -/
def NamedAlong (n : Node) (path : List Nat) : Prop :=
  ∀ q, q <+: path → q ≠ [] → ∀ m, n.at? q = some m → m.isNamed = true

/-- All nodes on a path are named if those before the last one are and it is. -/
theorem namedAlong_concat {i : Nat} (hm : n.at? (path ++ [i]) = some m) :
    n.NamedAlong (path ++ [i]) ↔ n.NamedAlong path ∧ m.isNamed = true := by
  constructor
  · refine fun h => ⟨fun q hq => h q (hq.trans (List.prefix_append path [i])), ?_⟩
    exact h _ List.prefix_rfl (by simp) m hm
  · rintro ⟨h, hnamed⟩ q hq hne d hd
    rcases List.prefix_concat_iff.mp hq with rfl | hq
    · rw [hm] at hd
      rwa [← Option.some.inj hd]
    · exact h q hq hne d hd

end Node

namespace Cursor

variable {c d : Cursor} {kinds : List String}

/-- The place of a child. -/
def child? (c : Cursor) (i : Nat) : Option Cursor :=
  c.node.children[i]?.map fun d => ⟨d, ⟨c.node, (c.node.children.take i).reverse⟩ :: c.above⟩

/-- The place at the end of a path. -/
def below? (c : Cursor) (path : List Nat) : Option Cursor :=
  path.foldlM child? c

theorem below?_concat (c : Cursor) (path : List Nat) (i : Nat) :
    c.below? (path ++ [i]) = (c.below? path).bind (·.child? i) := by
  rw [below?, List.foldlM_append]
  exact congrArg (c.below? path).bind (funext fun d => Option.bind_fun_some (d.child? i))

/-- The place of a child has the node around it and the children before it above it. -/
theorem child?_eq_some_iff {i : Nat} : c.child? i = some d ↔
    c.node.children[i]? = some d.node ∧
      d.above = ⟨c.node, (c.node.children.take i).reverse⟩ :: c.above := by
  rw [child?, Option.map_eq_some_iff]
  constructor
  · rintro ⟨n, hn, rfl⟩
    exact ⟨hn, rfl⟩
  · rintro ⟨hn, habove⟩
    exact ⟨d.node, hn, by rw [← habove]⟩

/-- Places and nodes below have the same paths. -/
theorem map_node_below? (c : Cursor) (path : List Nat) :
    (c.below? path).map node = c.node.at? path := by
  induction path using List.reverseRecOn with
  | nil => rfl
  | append_singleton path i ih =>
    rw [below?_concat, Node.at?_concat, ← ih]
    cases c.below? path with
    | none => rfl
    | some d => simp [child?, Function.comp_def]

/-- At a place stands the node on its path. -/
theorem at?_of_below? {path : List Nat} (h : c.below? path = some d) :
    c.node.at? path = some d.node := by
  rw [← map_node_below?, h]
  rfl

/-- Every node on a path has a place. -/
theorem exists_below?_of_at? {path : List Nat} {n : Node} (h : c.node.at? path = some n) :
    ∃ d, c.below? path = some d ∧ d.node = n := by
  rw [← map_node_below?] at h
  exact Option.map_eq_some_iff.mp h

/-- The path from the root to a place: at each step as many siblings stand before it. -/
def path (c : Cursor) : List Nat :=
  (c.above.map fun frame => frame.before.length).reverse

/-- The place on a path has this path. -/
theorem path_of_below? {root : Node} {path : List Nat} (h : (ofRoot root).below? path = some c) :
    c.path = path := by
  induction path using List.reverseRecOn generalizing c with
  | nil =>
    rw [← Option.some.inj h]
    rfl
  | append_singleton path i ih =>
    rw [below?_concat] at h
    obtain ⟨d, hd, hchild⟩ := Option.bind_eq_some_iff.mp h
    obtain ⟨hi, habove⟩ := child?_eq_some_iff.mp hchild
    obtain ⟨hlt, -⟩ := List.getElem?_eq_some_iff.mp hi
    have hlength : (d.node.children.take i).reverse.length = i := by
      rw [List.length_reverse, List.length_take, Nat.min_eq_left (Nat.le_of_lt hlt)]
    rw [Cursor.path, habove, List.map_cons, List.reverse_cons, hlength]
    exact congrArg (· ++ [i]) (ih hd)

/-! ### What a search finds -/

/-- The places of some children are those of the named ones, with all children before them. -/
theorem mem_placesAfter_iff {parent : Node} {above : List Frame} {before cs : List Node} :
    d ∈ placesAfter parent above before cs ↔ ∃ i, cs[i]? = some d.node ∧ d.node.isNamed = true ∧
      d.above = ⟨parent, (cs.take i).reverse ++ before⟩ :: above := by
  induction cs generalizing before with
  | nil => simp [placesAfter]
  | cons n cs ih =>
    have hrest : (∃ i, (n :: cs)[i + 1]? = some d.node ∧ d.node.isNamed = true ∧
        d.above = ⟨parent, ((n :: cs).take (i + 1)).reverse ++ before⟩ :: above) ↔
        d ∈ placesAfter parent above (n :: before) cs := by
      simp [ih]
    have hfirst : ((n :: cs)[0]? = some d.node ∧ d.node.isNamed = true ∧
        d.above = ⟨parent, ((n :: cs).take 0).reverse ++ before⟩ :: above) ↔
        n.isNamed = true ∧ d = ⟨n, ⟨parent, before⟩ :: above⟩ := by
      obtain ⟨m, frames⟩ := d
      constructor
      · rintro ⟨hm, hnamed, rfl⟩
        obtain rfl := Option.some.inj hm
        exact ⟨hnamed, rfl⟩
      · rintro ⟨hnamed, hd⟩
        cases hd
        exact ⟨rfl, hnamed, rfl⟩
    rw [← Nat.or_exists_add_one, hfirst, hrest, placesAfter]
    split_ifs with hnamed
    · simp [hnamed]
    · simp [hnamed]

/-- The named children of a place are its children that are named. -/
theorem mem_namedChildren_iff :
    d ∈ c.namedChildren ↔ ∃ i, c.child? i = some d ∧ d.node.isNamed = true := by
  rw [namedChildren, mem_placesAfter_iff]
  refine exists_congr fun i => ?_
  rw [child?_eq_some_iff, List.append_nil, and_assoc, and_comm (b := d.above = _)]

theorem map_node_namedChildren (c : Cursor) : c.namedChildren.map node = c.node.namedChildren := by
  have hplaces : ∀ before cs : List Node,
      (placesAfter c.node c.above before cs).map node = cs.filter Node.isNamed := by
    intro before cs
    induction cs generalizing before with
    | nil => rfl
    | cons d cs ih =>
      rw [placesAfter, List.filter_cons]
      split_ifs
      · rw [List.map_cons, ih]
      · exact ih (d :: before)
  exact hplaces [] c.node.children

/-- The place can be reached by going down to named children. -/
def Reaches : Cursor → Cursor → Prop :=
  Relation.ReflTransGen fun c d => d ∈ c.namedChildren

/-- A place reaches those that named nodes lead to. -/
theorem reaches_iff_below? :
    c.Reaches d ↔ ∃ path, c.below? path = some d ∧ c.node.NamedAlong path := by
  constructor
  · intro h
    induction h with
    | refl => exact ⟨[], rfl, fun q hq hne => absurd (List.prefix_nil.mp hq) hne⟩
    | @tail d e _ he ih =>
      obtain ⟨path, hpath, hnamed⟩ := ih
      obtain ⟨i, hi, hname⟩ := mem_namedChildren_iff.mp he
      have hbelow : c.below? (path ++ [i]) = some e := by
        rw [below?_concat, hpath]
        exact hi
      exact ⟨path ++ [i], hbelow,
        (Node.namedAlong_concat (at?_of_below? hbelow)).mpr ⟨hnamed, hname⟩⟩
  · rintro ⟨path, hpath, hnamed⟩
    induction path using List.reverseRecOn generalizing d with
    | nil =>
      rw [← Option.some.inj hpath]
      exact .refl
    | append_singleton path i ih =>
      obtain ⟨hbefore, hname⟩ := (Node.namedAlong_concat (at?_of_below? hpath)).mp hnamed
      rw [below?_concat] at hpath
      obtain ⟨e, he, hd⟩ := Option.bind_eq_some_iff.mp hpath
      exact (ih he hbefore).tail (mem_namedChildren_iff.mpr ⟨i, hd, hname⟩)

/-- A search finds the places of its kinds that it can reach. -/
theorem mem_search_iff {places : List Cursor} :
    c ∈ search kinds places ↔ kinds.contains c.node.kind = true ∧ ∃ s ∈ places, s.Reaches c := by
  have hstep : ∀ s rest, (∃ r ∈ s :: rest, r.Reaches c) ↔
      c = s ∨ ∃ r ∈ s.namedChildren ++ rest, r.Reaches c := by
    intro s rest
    have hs : s.Reaches c ↔ c = s ∨ ∃ d ∈ s.namedChildren, d.Reaches c := by
      rw [Reaches, Relation.ReflTransGen.cases_head_iff, eq_comm]
    simp only [List.mem_cons, List.mem_append, or_and_right, exists_or, exists_eq_left, hs,
      or_assoc]
  -- a place still to visit stands for all that can be reached from it
  fun_induction search kinds places with
  | case1 => simp
  | case2 s rest hkind ih =>
    have hself : kinds.contains c.node.kind = true ∧ c = s ↔ c = s :=
      and_iff_right_of_imp fun h => h ▸ hkind
    rw [hstep, and_or_left, hself, List.mem_cons]
    exact or_congr_right ih
  | case3 s rest hkind ih =>
    have hself : ¬ (kinds.contains c.node.kind = true ∧ c = s) := fun h => hkind (h.2 ▸ h.1)
    rw [hstep, and_or_left, or_iff_right hself]
    exact ih

/-- A search from the root of a tree finds the places of the kinds at the ends of all paths through
named nodes. -/
theorem mem_find_iff {root : Node} : c ∈ (ofRoot root).find kinds ↔
    kinds.contains c.node.kind = true ∧
      (ofRoot root).below? c.path = some c ∧ root.NamedAlong c.path := by
  rw [find, mem_search_iff]
  simp only [List.mem_singleton, exists_eq_left, reaches_iff_below?]
  refine and_congr_right fun _ => ⟨?_, fun h => ⟨c.path, h⟩⟩
  rintro ⟨path, hpath, hnamed⟩
  rw [path_of_below? hpath]
  exact ⟨hpath, hnamed⟩

end Cursor

end TypeFacts
