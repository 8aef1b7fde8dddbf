import TypeFacts.Text.Basic
import TypeFacts.Ty.Basic

/-!
# The text of a descriptor

A descriptor is written as a type expression. A question mark in front says that `null` is allowed,
except on the null type itself; a union lists its alternatives in increasing order of their texts
and says so with a last alternative `null`.
-/

namespace TypeFacts.Ty

/-- Puts a question mark in front of the text of a nullable descriptor, unless that is `null`. -/
def marked (nullable : Bool) (text : String) : String :=
  if nullable && text != "null" then "?" ++ text else text

/-- The alternatives of a union, given by their texts. -/
def joinAlternatives (texts : List String) : String :=
  Text.joined "|" (Text.sorted texts)

mutual

/-- The type expression of a descriptor. -/
def render : Ty → String
  | scalar k n => marked n k.word
  | named s n => marked n s
  | array v n =>
    marked n (if v.isMixed && !v.nullable then "array" else "array<" ++ v.render ++ ">")
  | keyed k v n => marked n ("array<" ++ k.render ++ ", " ++ v.render ++ ">")
  | union ms n =>
    let text := joinAlternatives (renderAll ms)
    if n then text ++ "|null" else text

/-- The type expressions of several descriptors. -/
def renderAll : List Ty → List String
  | [] => []
  | t :: ts => t.render :: renderAll ts

end

theorem renderAll_eq_map (ts : List Ty) : renderAll ts = ts.map render := by
  induction ts with
  | nil => rfl
  | cons t ts ih => simp [renderAll, ih]

/-- The name that a descriptor goes by when only its outermost form counts. -/
def name : Ty → String
  | scalar k _ => k.word
  | named s _ => s
  | array _ _ | keyed _ _ _ => "array"
  | union ms _ => joinAlternatives (renderAll ms)

/-- Does some alternative go by the name? -/
def hasMember (t : Ty) (name : String) : Bool :=
  t.members.any (·.name == name)

end TypeFacts.Ty
