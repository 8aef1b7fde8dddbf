import TypeFacts.Json.Basic
import TypeFacts.Text.Literal

/-!
# JSON values in messages

A message shows a value of the wrong sort as a literal: texts between quotes, lists and maps in
brackets, and words with a capital letter for the truth values and for no value.
-/

namespace TypeFacts.Json

mutual

/-- A value as a literal. -/
def literal : Json → String
  | null => "None"
  | bool true => "True"
  | bool false => "False"
  | int i => Number.intText i
  | float x => String.ofList (x.text "nan" "inf")
  | str s => Text.literal s
  | arr [] => "[]"
  | arr (x :: xs) => "[" ++ x.literal ++ literalItems xs ++ "]"
  | obj [] => "\x7b\x7d"
  | obj ((name, x) :: fields) =>
    "\x7b" ++ Text.literal name ++ ": " ++ x.literal ++ literalFields fields ++ "\x7d"

/-- The items after the first one. -/
def literalItems : List Json → String
  | [] => ""
  | x :: xs => ", " ++ x.literal ++ literalItems xs

/-- The fields after the first one. -/
def literalFields : List (String × Json) → String
  | [] => ""
  | (name, x) :: fields => ", " ++ Text.literal name ++ ": " ++ x.literal ++ literalFields fields

end

/-- A value as plain text: a text is itself, anything else its literal. -/
def plainText : Json → String
  | str s => s
  | j => j.literal

end TypeFacts.Json
