import TypeFacts.Settings.Basic
import TypeFacts.Text.Utf8
import TypeFacts.Tree.Fault

/-!
# Reading sources

A source is read by one of two grammars: with an opening tag it is a text with code in it, without
one it is code from the beginning. Reading never fails. Faults are reported with the tree and also
kept, in order, until they are cleared.
-/

namespace TypeFacts

/-- The ways of reading a source. -/
inductive Grammar where
  /-- Code stands behind opening tags. -/
  | tagged
  /-- All is code. -/
  | bare
  deriving DecidableEq, Repr

namespace Grammar

/-- Do the bytes hold the beginning of an opening tag? -/
def hasTag : List UInt8 → Bool
  | 60 :: 63 :: _ => true
  | _ :: bytes => hasTag bytes
  | [] => false

/-- The grammar of a source. -/
def ofSource (bytes : List UInt8) : Grammar :=
  if hasTag bytes then tagged else bare

end Grammar

/-- What gives the tree of any bytes by a grammar. -/
abbrev Parser := Grammar → List UInt8 → Node

/-- A reader of sources with the faults found since they were last cleared. -/
structure SourceReader where
  parser : Parser
  settings : Settings
  faults : List SourceFault := []

namespace SourceReader

/-- The tree of a source. -/
def tree (r : SourceReader) (bytes : List UInt8) : Node :=
  r.parser (Grammar.ofSource bytes) bytes

/-- The faults that are reported for a tree. -/
def faultsOf (r : SourceReader) (root : Node) : List SourceFault :=
  if r.settings.collectFaults && root.hasError then root.faults r.settings.maxFaults else []

/-- Reads a source: its tree and its faults, which are kept as well. -/
def read (r : SourceReader) (bytes : List UInt8) : (Node × List SourceFault) × SourceReader :=
  let root := r.tree bytes
  let found := r.faultsOf root
  ((root, found), { r with faults := r.faults ++ found })

/-- Forgets the faults. -/
def clear (r : SourceReader) : SourceReader := { r with faults := [] }

/-! ### Expressions -/

/-- The source that holds an expression as its only statement. -/
def expressionSource (code : String) : String :=
  let cs := (Text.trim code.toList).reverse.dropWhile (· == ';')
  "<?php " ++ String.ofList cs.reverse ++ ";"

/-- The expression of a tree: that of the first statement, or else the first thing there is. -/
def expressionOf (root : Node) : Node :=
  let statement := ((Cursor.ofRoot root).find ["expression_statement"]).head?
  let expression := statement.bind fun c => c.node.namedChildren.head?
  let other := root.namedChildren.find? (·.kind != "php_tag")
  (expression.orElse fun _ => other).getD root

/-- Reads an expression. -/
def readExpression (r : SourceReader) (code : String) : Node × SourceReader :=
  let ((root, _), r) := r.read (Utf8.encode (expressionSource code))
  (expressionOf root, r)

end SourceReader

end TypeFacts
