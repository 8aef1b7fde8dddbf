import TypeFacts.Table
import TypeFacts.Text.Basic
import TypeFacts.TypeText.Parse

/-!
# Scopes

A scope is the namespace and the imports in effect at a place of a file. A relative class name is
made absolute in it: its first part is looked up among the imports, and a name that is not imported
belongs to the namespace.
-/

namespace TypeFacts

/-- The namespace and the imports in effect at a place of a file. -/
structure Scope where
  /-- The namespace; empty for the global one. -/
  ns : String := ""
  /-- The imported names, from the short to the full form. -/
  imports : Table String := .empty
  deriving DecidableEq, Repr, Inhabited

namespace Scope

/-- A name inside a namespace. -/
def underNamespace (ns name : String) : String :=
  if ns.isEmpty then name else ns ++ "\\" ++ name

/-- The words that stand for a class without naming it. -/
def isRelativeWord (name : String) : Bool :=
  let word := Text.asciiLower name
  word == "self" || word == "static" || word == "parent"

/-- The full form of a class name. -/
def qualify (scope : Scope) (name : String) : String :=
  match name.toList with
  | '\\' :: _ => Text.withoutBackslashes name
  | '$' :: _ => name
  | cs =>
    if isRelativeWord name then name
    else
      let (head, rest) := (Text.cutAt '\\' cs).getD (cs, [])
      match scope.imports.get? (String.ofList head) with
      | some full => if rest.isEmpty then full else full ++ "\\" ++ String.ofList rest
      | none => underNamespace scope.ns name

end Scope

end TypeFacts
