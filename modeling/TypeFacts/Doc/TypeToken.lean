import TypeFacts.TypeText.Split

/-!
# The type in front of a tag's content

The content of a tag begins with a type expression and ends with free text. A blank ends the type
unless a bracket is open or a `|` stands on either side of it.
-/

namespace TypeFacts.Doc

/-- A text without its plain spaces. -/
def withoutSpaces (cs : List Char) : List Char :=
  cs.filter (· != ' ')

/-- Looks for the end of the type; `before` holds the characters passed over, the last one first,
and `depth` counts the open brackets among them. -/
def findTypeEnd (before : List Char) (depth : Nat) : List Char → Option (List Char × List Char)
  | [] => none
  | c :: cs =>
    if TypeText.isOpener c then findTypeEnd (c :: before) (depth + 1) cs
    else if TypeText.isCloser c then findTypeEnd (c :: before) (depth - 1) cs
    else if Text.isBlank c && depth == 0 then
      let token := before.dropWhile Text.isBlank
      let rest := Text.trimLeft (c :: cs)
      if token.head? == some '|' || rest.head? == some '|' then findTypeEnd (c :: before) depth cs
      else some (withoutSpaces token.reverse, rest)
    else findTypeEnd (c :: before) depth cs

/-- The type expression in front of a content and the text behind it. -/
def splitTypeChars (content : List Char) : List Char × List Char :=
  let text := Text.trim content
  match findTypeEnd [] 0 text with
  | some parts => parts
  | none => (if text.contains '|' then withoutSpaces text else text, [])

/-- `splitTypeChars` on strings. -/
def splitTypeToken (content : String) : String × String :=
  let (token, rest) := splitTypeChars content.toList
  (String.ofList token, String.ofList rest)

end TypeFacts.Doc
