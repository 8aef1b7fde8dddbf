import TypeFacts.Number.Binary64
import TypeFacts.Table

/-!
# JSON values

Whole numbers and floating point numbers are kept apart, as they are in the text, and the fields of
an object keep the order in which their names first occur.
-/

namespace TypeFacts

/-- A JSON value. -/
inductive Json where
  | null
  | bool (value : Bool)
  | int (value : Int)
  | float (value : Number.Binary64)
  | str (value : String)
  | arr (items : List Json)
  | obj (fields : List (String × Json))
  deriving Repr, Inhabited

namespace Json

/-- A text, or null where there is none. -/
def ofText? : Option String → Json
  | some s => str s
  | none => null

/-- A whole number, or null where there is none. -/
def ofInt? : Option Int → Json
  | some i => int i
  | none => null

/-- A list of texts. -/
def ofTexts (texts : List String) : Json :=
  arr (texts.map str)

end Json

end TypeFacts
