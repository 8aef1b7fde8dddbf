import TypeFacts.Declaration.Basic
import TypeFacts.Text.Basic
import TypeFacts.Tree.Cursor

/-!
# Faults in syntax trees

Where a source does not follow the grammar, its tree has nodes of the kind `ERROR` and nodes for
what is missing. Each outermost one is reported once, in order of the source, up to a limit.
-/

namespace TypeFacts

namespace Node

/-- Is the node itself a fault? -/
def isFault (n : Node) : Bool :=
  n.kind == "ERROR" || n.isMissing

/-- What a fault shows of the source: its first line, cut after thirty characters. -/
def snippet (n : Node) : String :=
  String.ofList (((Text.trim n.text.toList).takeWhile fun c => !Text.isLineEnd c).take 30)

/-- The wording of a fault. -/
def faultMessage (n : Node) : String :=
  if n.kind == "ERROR" then
    if n.snippet.isEmpty then "Syntax error" else "Syntax error, unexpected '" ++ n.snippet ++ "'"
  else "Syntax error, missing '" ++ n.kind ++ "'"

/-- The report of a fault. -/
def toFault (n : Node) : SourceFault :=
  ⟨n.faultMessage, n.line, n.column⟩

theorem weights_append (as bs : List Node) : weights (as ++ bs) = weights as + weights bs := by
  induction as with
  | nil => simp [weights]
  | cons a as ih => simp only [List.cons_append, weights, ih]; omega

/-- Visits nodes one after the other and reports faults until the limit is reached. Below a fault,
and below a node without any, there is nothing to visit. -/
def faultsAmong (limit : Nat) (nodes : List Node) : List SourceFault :=
  match limit, nodes with
  | 0, _ => []
  | _, [] => []
  | limit + 1, n :: rest =>
    if n.isFault then n.toFault :: faultsAmong limit rest
    else if n.hasError then faultsAmong (limit + 1) (n.children ++ rest)
    else faultsAmong (limit + 1) rest
termination_by weights nodes
decreasing_by
  · have := weight_eq n
    simp only [weights]
    omega
  · have := weight_eq n
    rw [weights_append]
    simp only [weights]
    omega
  · have := weight_eq n
    simp only [weights]
    omega

/-- The faults of a tree, up to a limit. -/
def faults (root : Node) (limit : Nat) : List SourceFault :=
  faultsAmong limit [root]

end Node

end TypeFacts
