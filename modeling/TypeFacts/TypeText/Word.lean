import TypeFacts.Ty.Basic

/-!
# Words of the type grammar

The words with a meaning of their own, in any letter case: aliases of the scalar kinds, the two
words for arrays, the keyword types and `null`.
-/

namespace TypeFacts.TypeText

/-- The scalar kind that a word in lower case stands for. -/
def scalarAlias? : String → Option ScalarKind
  | "int" | "integer" => some .int
  | "float" | "double" => some .float
  | "string" => some .string
  | "bool" | "boolean" | "true" | "false" => some .bool
  | _ => none

/-- Is the word, in lower case, one of the two for arrays? -/
def isArrayWord (word : String) : Bool :=
  word == "array" || word == "list"

/-- The keyword types, which are written in lower case. -/
def keywordTypes : List String :=
  ["mixed", "void", "never", "object", "callable", "iterable", "self", "static", "parent",
    "resource"]

/-- Is the word, in lower case, a keyword type? -/
def isKeyword (word : String) : Bool :=
  keywordTypes.contains word

/-- Is the name, in any letter case, a word of the grammar and so no class? -/
def isReserved (name : String) : Bool :=
  let word := Text.asciiLower name
  (scalarAlias? word).isSome || isArrayWord word || isKeyword word || word == "null"

end TypeFacts.TypeText
