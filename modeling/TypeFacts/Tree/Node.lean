import TypeFacts.Text.Utf8

/-!
# Syntax trees

A node of a syntax tree has a kind, some flags, the role it plays in its parent, the text it covers
and its children. Trees come from a grammar as shapes over the bytes of a source; `Node.ofShape`
cuts the texts out and finds lines and columns.
-/

namespace TypeFacts

/-- A tree as a grammar gives it: kinds, flags, roles and byte ranges. -/
inductive Shape where
  | mk (kind : String) (named missing hasError : Bool) (start stop : Nat) (role : String)
      (children : List Shape)
  deriving Repr, Inhabited

/-- A node of a syntax tree with the text it covers. -/
inductive Node where
  | mk (kind : String) (named missing hasError : Bool) (start line column : Nat)
      (role text : String)
      (children : List Node)
  deriving Repr, Inhabited

namespace Node

/-- The kind of the node in the grammar. -/
def kind : Node → String
  | mk k .. => k

/-- Does the node stand for a rule of the grammar, and not for a mere token? -/
def isNamed : Node → Bool
  | mk _ n .. => n

/-- Was the node put in by the grammar where something is missing? -/
def isMissing : Node → Bool
  | mk _ _ m .. => m

/-- Is there a fault in the node or below it? -/
def hasError : Node → Bool
  | mk _ _ _ e .. => e

/-- The number of bytes in front of the node. -/
def start : Node → Nat
  | mk _ _ _ _ s .. => s

/-- The line of the node, counted from one. -/
def line : Node → Nat
  | mk _ _ _ _ _ l .. => l

/-- The column of the node in bytes, counted from one. -/
def column : Node → Nat
  | mk _ _ _ _ _ _ c .. => c

/-- The role of the node in its parent; empty for none. -/
def role : Node → String
  | mk _ _ _ _ _ _ _ r .. => r

/-- The text that the node covers. -/
def text : Node → String
  | mk _ _ _ _ _ _ _ _ t _ => t

/-- The parts of the node, in order. -/
def children : Node → List Node
  | mk _ _ _ _ _ _ _ _ _ cs => cs

/-- The named parts of the node, in order. -/
def namedChildren (n : Node) : List Node :=
  n.children.filter isNamed

/-- The first part that plays the role. -/
def child? (n : Node) (role : String) : Option Node :=
  n.children.find? (·.role == role)

/-- The first named part of one of the kinds. -/
def namedOf? (n : Node) (kinds : List String) : Option Node :=
  n.namedChildren.find? fun c => kinds.contains c.kind

/-! ### Sizes -/

theorem sizeOf_lt_of_mem {n c : Node} (h : c ∈ n.children) : sizeOf c < sizeOf n := by
  obtain ⟨_, _, _, _, _, _, _, _, _, cs⟩ := n
  have := List.sizeOf_lt_of_mem h
  simp only [children] at this
  simp only [mk.sizeOf_spec]
  omega

theorem mem_children_of_mem_named {n c : Node} (h : c ∈ n.namedChildren) : c ∈ n.children :=
  (List.mem_filter.1 h).1

theorem mem_children_of_child? {n c : Node} {role : String} (h : n.child? role = some c) :
    c ∈ n.children :=
  List.mem_of_find?_eq_some h

theorem mem_children_of_namedOf? {n c : Node} {kinds : List String}
    (h : n.namedOf? kinds = some c) : c ∈ n.children :=
  mem_children_of_mem_named (List.mem_of_find?_eq_some h)

/-! ### Comparison -/

mutual

/-- Decides whether two nodes are equal. -/
def decideEq : (a b : Node) → Decidable (a = b)
  | mk k n m e s l c r t cs, mk k' n' m' e' s' l' c' r' t' cs' =>
    have := decideEqAll cs cs'
    decidable_of_iff (k = k' ∧ n = n' ∧ m = m' ∧ e = e' ∧ s = s' ∧ l = l' ∧ c = c' ∧ r = r' ∧
      t = t' ∧ cs = cs') (by simp)

/-- Decides whether two rows of nodes are equal. -/
def decideEqAll : (as bs : List Node) → Decidable (as = bs)
  | [], [] => isTrue rfl
  | a :: as, b :: bs =>
    have := decideEq a b
    have := decideEqAll as bs
    decidable_of_iff (a = b ∧ as = bs) (by simp)
  | [], _ :: _ | _ :: _, [] => isFalse (by simp)

end

instance : DecidableEq Node := decideEq

/-! ### From shapes -/

/-- The number of line ends in front of a place. -/
def rowAt (source : List UInt8) (place : Nat) : Nat :=
  (source.take place).count 10

/-- The number of bytes between the last line end and a place. -/
def columnAt (source : List UInt8) (place : Nat) : Nat :=
  ((source.take place).reverse.takeWhile (· != 10)).length

mutual

/-- The node of a shape over a source. -/
def ofShape (source : List UInt8) : Shape → Node
  | .mk kind named missing hasError start stop role shapes =>
    .mk kind named missing hasError start (rowAt source start + 1) (columnAt source start + 1) role
      (Utf8.lossy ((source.drop start).take (stop - start))) (ofShapes source shapes)

/-- The nodes of several shapes over a source. -/
def ofShapes (source : List UInt8) : List Shape → List Node
  | [] => []
  | s :: ss => ofShape source s :: ofShapes source ss

end

/-! ### Traversal -/

mutual

/-- The node and all named nodes below it, parents before children and earlier siblings first. -/
def preorder : Node → List Node
  | n@(mk _ _ _ _ _ _ _ _ _ cs) => n :: preorderNamed cs

/-- The named nodes of a row of siblings and below them. -/
def preorderNamed : List Node → List Node
  | [] => []
  | c :: cs => if c.isNamed then preorder c ++ preorderNamed cs else preorderNamed cs

end

end Node

end TypeFacts
