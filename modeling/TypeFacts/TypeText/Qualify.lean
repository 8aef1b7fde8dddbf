import TypeFacts.Scope

/-!
# Class names in type texts

The class names of a type text are replaced by their full forms with a backslash in front, so that
the text means the same in every file. Words of the grammar and names that begin with a backslash
stay.
-/

namespace TypeFacts.TypeText

/-- The characters that a name begins with. -/
def startsName (c : Char) : Bool :=
  c.isAlpha || c == '_' || (0x80 ≤ c.toNat && c.toNat ≤ 0xFFFF)

/-- Is the character one behind which no name begins? -/
def continuesName (c : Char) : Bool :=
  isNameChar c || c == '$'

/-- The name in front of a text, with the backslash that may precede it, and what follows. -/
def nameAhead? : List Char → Option (List Char × List Char)
  | '\\' :: c :: cs =>
    if startsName c then some ('\\' :: c :: cs.takeWhile isNameChar, cs.dropWhile isNameChar)
    else none
  | c :: cs =>
    if startsName c then some (c :: cs.takeWhile isNameChar, cs.dropWhile isNameChar) else none
  | [] => none

theorem length_lt_of_nameAhead? {cs name rest : List Char}
    (h : nameAhead? cs = some (name, rest)) : rest.length < cs.length := by
  unfold nameAhead? at h
  split at h
  · next c cs' =>
    split at h
    · simp only [Option.some.injEq, Prod.mk.injEq] at h
      have := Text.length_dropWhile_le isNameChar cs'
      rw [← h.2]
      simp only [List.length_cons]
      omega
    · cases h
  · next c cs' _ =>
    split at h
    · simp only [Option.some.injEq, Prod.mk.injEq] at h
      have := Text.length_dropWhile_le isNameChar cs'
      rw [← h.2]
      simp only [List.length_cons]
      omega
    · cases h
  · cases h

/-- The full form of one name of a type text. -/
def qualifyName (resolve : String → String) (name : List Char) : List Char :=
  let s := String.ofList name
  if name.head? == some '\\' || isReserved s then name
  else '\\' :: Text.dropBackslashes (resolve s).toList

/-- Replaces the names of a text that follows the given character. -/
def qualifyAfter (resolve : String → String) (before : Option Char) (cs : List Char) : List Char :=
  match cs with
  | [] => []
  | c :: rest =>
    if before.any continuesName then c :: qualifyAfter resolve (some c) rest
    else
      match _h : nameAhead? (c :: rest) with
      | some (name, after) => qualifyName resolve name ++ qualifyAfter resolve name.getLast? after
      | none => c :: qualifyAfter resolve (some c) rest
termination_by cs.length
decreasing_by
  · simp
  · exact length_lt_of_nameAhead? _h
  · simp

/-- Replaces the class names of a type text by their full forms. -/
def qualify (resolve : String → String) (text : String) : String :=
  String.ofList (qualifyAfter resolve none text.toList)

/-- Reads a type text with its class names taken in the scope. -/
def resolve (scope : Scope) (text : String) : Except Ty.Fault (Option Ty) :=
  parse (qualify scope.qualify text)

end TypeFacts.TypeText
