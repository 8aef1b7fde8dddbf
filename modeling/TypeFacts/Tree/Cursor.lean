import TypeFacts.Tree.Node

/-!
# Places in a syntax tree

A cursor is a node together with all that stands above it and before it. `Cursor.find` collects the
places of nodes of some kinds; it works through a list of places still to visit and visits parents
before children and earlier siblings first.
-/

namespace TypeFacts

namespace Node

mutual

/-- The number of nodes of a tree. -/
def weight : Node → Nat
  | mk _ _ _ _ _ _ _ _ _ cs => 1 + weights cs

/-- The number of nodes of several trees. -/
def weights : List Node → Nat
  | [] => 0
  | n :: ns => n.weight + weights ns

end

theorem weight_eq (n : Node) : n.weight = 1 + weights n.children := by
  cases n; rfl

end Node

/-- The parent of a place and the siblings before it. -/
structure Frame where
  parent : Node
  /-- The earlier siblings, the nearest first. -/
  before : List Node
  deriving Repr

/-- A place in a syntax tree. -/
structure Cursor where
  node : Node
  /-- The frames around the node, the innermost first. -/
  above : List Frame
  deriving Repr

namespace Cursor

/-- The place of the root of a tree. -/
def ofRoot (root : Node) : Cursor := ⟨root, []⟩

/-- The places of those named children that come after the given ones. -/
def placesAfter (parent : Node) (above : List Frame) (before : List Node) :
    List Node → List Cursor
  | [] => []
  | c :: cs =>
    if c.isNamed then
      ⟨c, ⟨parent, before⟩ :: above⟩ :: placesAfter parent above (c :: before) cs
    else placesAfter parent above (c :: before) cs

/-- The places of the named children. -/
def namedChildren (c : Cursor) : List Cursor :=
  placesAfter c.node c.above [] c.node.children

/-- The named siblings before a place, the nearest first. -/
def namedBefore (c : Cursor) : List Node :=
  match c.above with
  | [] => []
  | frame :: _ => frame.before.filter Node.isNamed

/-- The number of nodes below several places. -/
def total (cursors : List Cursor) : Nat :=
  Node.weights (cursors.map node)

theorem total_append (as bs : List Cursor) : total (as ++ bs) = total as + total bs := by
  induction as with
  | nil => simp [total, Node.weights]
  | cons a as ih =>
    simp only [total, List.cons_append, List.map_cons, Node.weights] at ih ⊢
    omega

theorem total_placesAfter_le (parent : Node) (above : List Frame) (before cs : List Node) :
    total (placesAfter parent above before cs) ≤ Node.weights cs := by
  induction cs generalizing before with
  | nil => simp [placesAfter, total, Node.weights]
  | cons c cs ih =>
    have h := ih (c :: before)
    simp only [placesAfter]
    split
    · simp only [total, List.map_cons, Node.weights] at h ⊢
      omega
    · simp only [Node.weights]
      omega

/-- The places below a place hold fewer nodes than it does. -/
theorem total_namedChildren_lt (c : Cursor) : total c.namedChildren < c.node.weight := by
  have h := total_placesAfter_le c.node c.above [] c.node.children
  rw [Node.weight_eq]
  unfold namedChildren
  omega

/-- Visits places one after the other, with the named children of each right after it, and keeps
those whose node is of one of the kinds. -/
def search (kinds : List String) (places : List Cursor) : List Cursor :=
  match places with
  | [] => []
  | c :: rest =>
    if kinds.contains c.node.kind then c :: search kinds (c.namedChildren ++ rest)
    else search kinds (c.namedChildren ++ rest)
termination_by total places
decreasing_by
  all_goals
    have h := total_namedChildren_lt c
    rw [total_append]
    simp only [total, List.map_cons, Node.weights] at h ⊢
    omega

/-- The places of all nodes of the kinds, from the given place on. -/
def find (c : Cursor) (kinds : List String) : List Cursor :=
  search kinds [c]

/-! ### Doc comments -/

/-- The doc comment among the comments right before a place, the nearest first. -/
def docCommentAmong : List Node → Option String
  | [] => none
  | s :: ss =>
    if s.kind == "comment" then
      if "/**".toList.isPrefixOf s.text.toList then some s.text else docCommentAmong ss
    else none

/-- The doc comment of the node at a place. -/
def docComment? (c : Cursor) : Option String :=
  docCommentAmong c.namedBefore

end Cursor

end TypeFacts
