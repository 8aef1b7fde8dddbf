import TypeFacts.Ty.Render

/-!
# Merging and compatibility

`Ty.merge` joins candidate descriptors into one: the alternatives of all of them form a set, and
`null` becomes the flag of the result. `Ty.accepts` is the loose test whether a value of one type
may stand where another is expected.
-/

namespace TypeFacts.Ty

/-- The descriptor with the given alternatives: none is `null`, one is itself, several are
a union. -/
def ofAlternatives (alternatives : List Ty) (nullable : Bool) : Ty :=
  match memberSet alternatives with
  | [] => null
  | [t] => t.withNullable nullable
  | ts => union ts nullable

/-- The alternatives of a list of candidates other than `null`, each without its flag. -/
def plainAlternatives (ts : List Ty) : List Ty :=
  ((ts.flatMap members).filter fun t => !t.isNull).map (·.withNullable false)

/-- Does some candidate allow `null`, by its flag or as an alternative? -/
def allowsNull (ts : List Ty) : Bool :=
  ts.any nullable || (ts.flatMap members).any isNull

/-- Joins candidates into one descriptor. No candidate leaves the type open, equal candidates are
taken as they are, and otherwise their alternatives are collected. -/
def merge : List Ty → Ty
  | [] => mixed
  | t :: ts =>
    if ts.all (· = t) then t
    else ofAlternatives (plainAlternatives (t :: ts)) (allowsNull (t :: ts))

/-- May a value of the one alternative stand where the other is expected? Names are compared, `null`
goes where the flag is set, `mixed` goes with anything, and `int` and `float` go together. -/
def acceptsOne (expected given : Ty) : Bool :=
  expected.name == given.name || (given.name == "null" && expected.nullable) ||
    expected.isMixed || given.isMixed ||
    (match expected with
      | scalar .int _ => given.name == "float"
      | scalar .float _ => given.name == "int"
      | _ => false)

/-- May a value of the one type stand where the other is expected? Some alternative has to accept
some alternative. -/
def accepts (expected given : Ty) : Bool :=
  expected.members.any fun e => given.members.any fun g => acceptsOne e g

end TypeFacts.Ty
