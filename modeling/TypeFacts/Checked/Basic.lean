import TypeFacts.Json.Basic
import TypeFacts.Text.Basic

/-!
# Checked values

Reading a record from JSON checks every field and reports all complaints, each with the place it is
about: the names of the fields and the indices of the items that lead to it. `Checked` collects the
complaints of independent parts in order.
-/

namespace TypeFacts

/-- What is wrong with a value. -/
inductive Cause where
  /-- A field that has to be there is not. -/
  | missing
  | notText
  /-- A text that has to have a character has none. -/
  | emptyText
  | notList
  | notMap
  | notSet
  /-- A value that is no object where a record of the given kind is expected. -/
  | notRecord (kind : String)
  /-- A value that is none of the given words. -/
  | notOneOf (words : List String)
  | notBool
  /-- A value of a sort that can stand for a truth value, but does not. -/
  | unclearBool
  | notInt
  /-- A text that is no numeral of a whole number. -/
  | unclearInt
  | fractional
  | notFinite
  /-- A floating point number too large to be taken as a whole number, or a text that
  begins with too many digits. -/
  | oversized
  | atLeast (bound : Nat)
  | atMost (bound : Nat)
  /-- A value that is no object where a type descriptor is expected. -/
  | notTagged
  /-- A type descriptor that does not say which form it has. -/
  | noTag
  /-- A type descriptor of an unknown form. -/
  | unknownTag (tag : String)
  /-- A union with fewer than two members. -/
  | fewMembers
  /-- A union with a union as a member. -/
  | nestedUnion
  /-- A union with a nullable member. -/
  | nullableMember
  /-- A value too deep within others of its sort. -/
  | tooDeep
  deriving DecidableEq, Repr

namespace Cause

/-- A word between single quotes. -/
def quotedWord (word : String) : String :=
  "'" ++ word ++ "'"

/-- Words between quotes, separated by commas and, before the last one, by `or`. -/
def alternatives : List String → String
  | [] => ""
  | [word] => quotedWord word
  | [word, last] => quotedWord word ++ " or " ++ quotedWord last
  | word :: words => quotedWord word ++ ", " ++ alternatives words

/-- The wording of a cause. -/
def message : Cause → String
  | missing => "Field required"
  | notText => "Input should be a valid string"
  | emptyText => "String should have at least 1 character"
  | notList => "Input should be a valid list"
  | notMap => "Input should be a valid dictionary"
  | notSet => "Input should be a valid frozenset"
  | notRecord kind => "Input should be a valid dictionary or instance of " ++ kind
  | notOneOf words => "Input should be " ++ alternatives words
  | notBool => "Input should be a valid boolean"
  | unclearBool => "Input should be a valid boolean, unable to interpret input"
  | notInt => "Input should be a valid integer"
  | unclearInt => "Input should be a valid integer, unable to parse string as an integer"
  | fractional => "Input should be a valid integer, got a number with a fractional part"
  | notFinite => "Input should be a finite number"
  | oversized => "Unable to parse input string as an integer, exceeded maximum size"
  | atLeast bound => "Input should be greater than or equal to " ++ Number.natText bound
  | atMost bound => "Input should be less than or equal to " ++ Number.natText bound
  | notTagged => "Input should be a valid dictionary or object to extract fields from"
  | noTag => "Unable to extract tag using discriminator 'variant'"
  | unknownTag tag =>
    "Input tag '" ++ tag ++ "' found using 'variant' does not match any of the expected tags: " ++
      "'scalar', 'array', 'named', 'union'"
  | fewMembers => "Value error, Union type must have at least 2 members"
  | nestedUnion => "Value error, Union members must be flattened"
  | nullableMember => "Value error, Union members carry no nullable flag; set it on the union"
  | tooDeep => "Recursion error - maximum validation depth exceeded"

end Cause

/-- A cause and the place it is about, outermost step first. -/
structure Complaint where
  place : List String
  cause : Cause
  deriving DecidableEq, Repr

namespace Complaint

/-- The wording of a complaint: the place with its steps joined by dots, and the cause. -/
def message (c : Complaint) : String :=
  Text.joined "." c.place ++ ": " ++ c.cause.message

/-- The wording of several complaints. -/
def messages (cs : List Complaint) : String :=
  Text.joined "; " (cs.map message)

end Complaint

/-- A value that passed its checks, or the complaints about it. -/
inductive Checked (α : Type) where
  | ok (value : α)
  | faulty (complaints : List Complaint)
  deriving Repr

namespace Checked

variable {α β : Type}

/-- A single complaint about the value itself. -/
def complain (cause : Cause) : Checked α :=
  faulty [⟨[], cause⟩]

/-- Applies a checked function to a checked value; the complaints of both are collected in order. -/
def apply (f : Checked (α → β)) (x : Checked α) : Checked β :=
  match f, x with
  | ok f, ok x => ok (f x)
  | ok _, faulty cs => faulty cs
  | faulty cs, ok _ => faulty cs
  | faulty cs, faulty ds => faulty (cs ++ ds)

/-- Applies a function to a value that passed its checks. -/
def map (f : α → β) : Checked α → Checked β
  | ok x => ok (f x)
  | faulty cs => faulty cs

/-- A further check of a value that passed its checks. -/
def andThen (x : Checked α) (f : α → Checked β) : Checked β :=
  match x with
  | ok x => f x
  | faulty cs => faulty cs

instance : Applicative Checked where
  pure := ok
  seq f x := apply f (x ())
  map := map

/-- Puts a step in front of the place of every complaint. -/
def within (step : String) : Checked α → Checked α
  | ok x => ok x
  | faulty cs => faulty (cs.map fun c => { c with place := step :: c.place })

/-- The values of all checks, or all complaints in order. -/
def all : List (Checked α) → Checked (List α)
  | [] => ok []
  | x :: xs => apply (map List.cons x) (all xs)

/-- The complaints as an error. -/
def toExcept : Checked α → Except (List Complaint) α
  | ok x => .ok x
  | faulty cs => .error cs

end Checked

end TypeFacts
