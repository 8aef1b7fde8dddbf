import TypeFacts.Ty.Merge
import TypeFacts.TypeText.Split
import TypeFacts.TypeText.Word

/-!
# Reading type expressions

A type expression is one or more alternatives joined by `|`, with an optional `?` in front. An
alternative is a group in parentheses, an intersection (which is described as `mixed`), an array
written `array<…>`, `list<…>`, `array{…}` or `…[]`, a word of the grammar, or a name. Text that fits
nothing else is taken as a name; a text without any name in it describes no type.

The recursion ends because each part that is read again is shorter than the text it was found in.
-/

namespace TypeFacts.TypeText

/-- Is the text one group in parentheses, so that its first parenthesis is closed by its
last character? -/
def isWrapped (cs : List Char) : Bool :=
  cs.head? == some '(' && cs.getLast? == some ')' && !closesEarly 0 cs
where
  /-- Does the number of open parentheses come back to zero before the last character? -/
  closesEarly : Nat → List Char → Bool
    | _, [] => false
    | depth, c :: cs =>
      if c == '(' then closesEarly (depth + 1) cs
      else if c == ')' then
        (depth == 1 && !cs.isEmpty) || closesEarly (depth - 1) cs
      else closesEarly depth cs

/-- Characters of a name: word characters and backslashes. -/
def isNameChar (c : Char) : Bool :=
  Text.isWord c || c == '\\'

/-- The name and the arguments of a text of the form `name<arguments>`. -/
def genericParts? (cs : List Char) : Option (List Char × List Char) :=
  match cs.takeWhile isNameChar, Text.trimLeft (cs.dropWhile isNameChar) with
  | c :: name, '<' :: rest =>
    if rest.getLast? = some '>' then some (c :: name, rest.dropLast) else none
  | _, _ => none

/-- Does the text end with the pair of brackets that makes an array of what stands before? -/
def endsWithBrackets (cs : List Char) : Bool :=
  match cs.reverse with
  | ']' :: '[' :: _ => true
  | _ => false

/-- Does the text begin with the word of an array and a brace? -/
def isShape (word : String) : Bool :=
  "array\x7b".toList.isPrefixOf word.toList || "list\x7b".toList.isPrefixOf word.toList

/-- The type that a word of the grammar stands for, or that a shape does; keyword types
are names. -/
def wordType? (cs : List Char) : Option Ty :=
  let word := Text.asciiLower (String.ofList cs)
  match scalarAlias? word with
  | some kind => some (.scalar kind false)
  | none =>
    if word == "null" then some .null
    else if isArrayWord word || isShape word then some .anyArray
    else none

/-- Is the name, without backslashes in front, one of the words for arrays? -/
def isArrayName (name : List Char) : Bool :=
  isArrayWord (Text.asciiLower (String.ofList (Text.dropBackslashes name)))

/-- The merge of those types that alternatives describe. -/
def mergeFound (found : List (Option Ty)) : Option Ty :=
  match found.filterMap id with
  | [] => none
  | ts => some (.merge ts)

/-- A word of the grammar, or a name without backslashes in front; backslashes alone are neither. -/
def wordOrName (cs : List Char) : Except Ty.Fault (Option Ty) :=
  let word := Text.asciiLower (String.ofList cs)
  if isKeyword word then (Ty.ofName word false).map some
  else
    match Text.dropBackslashes cs with
    | [] => .ok none
    | name => (Ty.ofName (String.ofList name) false).map some

theorem length_args_lt {cs name args : List Char} (h : genericParts? cs = some (name, args)) :
    args.length < cs.length := by
  have hd := Text.length_dropWhile_le isNameChar cs
  have ht := Text.length_dropWhile_le Text.isBlank (cs.dropWhile isNameChar)
  unfold genericParts? at h
  split at h
  · next c n rest _ hrest =>
    split at h
    · simp only [Option.some.injEq, Prod.mk.injEq] at h
      have : (Text.trimLeft (cs.dropWhile isNameChar)).length = rest.length + 1 := by
        rw [hrest]; rfl
      rw [← h.2, List.length_dropLast]
      unfold Text.trimLeft at this
      omega
    · cases h
  · cases h

mutual

/-- Reads a type expression. -/
def expression (cs : List Char) : Except Ty.Fault (Option Ty) :=
  match _h : Text.trim cs with
  | [] => .ok none
  | '?' :: rest => optional rest
  | c :: body => alternatives (c :: body)
termination_by 5 * cs.length + 3
decreasing_by
  all_goals have := Text.length_trim_le cs
  all_goals simp_all only [List.length_cons]
  all_goals omega

/-- Reads what stands after a question mark. -/
def optional (cs : List Char) : Except Ty.Fault (Option Ty) :=
  match _h : Text.trim cs with
  | [] => .ok none
  | c :: body => (alternatives (c :: body)).map fun t => t.map (·.withNullable true)
termination_by 5 * cs.length + 2
decreasing_by
  have := Text.length_trim_le cs
  simp_all only [List.length_cons]
  omega

/-- Reads alternatives joined by `|` and merges those that describe a type. -/
def alternatives (cs : List Char) : Except Ty.Fault (Option Ty) :=
  if 1 < (splitOutside '|' cs).length then
    Except.map mergeFound ((splitOutside '|' cs).attach.mapM fun ⟨part, _⟩ => alternative part)
  else alternative cs
termination_by 5 * cs.length + 1
decreasing_by
  · have := length_le_of_mem_splitOutside (by assumption)
    omega
  · omega

/-- Reads one alternative. -/
def alternative (cs : List Char) : Except Ty.Fault (Option Ty) :=
  match _h : Text.trim cs with
  | [] => .ok none
  | c :: body =>
    if isWrapped (c :: body) then expression body.dropLast
    else if 1 < (splitOutside '&' (c :: body)).length then .ok (some .mixed)
    else if c = '?' then optional body
    else
      match wordType? (c :: body) with
      | some t => .ok (some t)
      | none =>
        match _hg : genericParts? (c :: body) with
        | some (name, args) =>
          if isArrayName name then (arrayArguments args).map some
          else (Ty.ofName (String.ofList (Text.dropBackslashes name)) false).map some
        | none =>
          if endsWithBrackets (c :: body) then
            (expression (c :: body).dropLast.dropLast).map fun value =>
              some (.array (value.getD .mixed) false)
          else wordOrName (c :: body)
termination_by 5 * cs.length + 0
decreasing_by
  · have h₁ := Text.length_trim_le cs
    have h₂ := congrArg List.length _h
    simp only [List.length_cons] at h₂
    simp only [List.length_dropLast]
    omega
  · have h₁ := Text.length_trim_le cs
    have h₂ := congrArg List.length _h
    simp only [List.length_cons] at h₂
    omega
  · have h₁ := Text.length_trim_le cs
    have h₂ := congrArg List.length _h
    have h₃ := length_args_lt _hg
    simp only [List.length_cons] at h₂ h₃
    omega
  · have h₁ := Text.length_trim_le cs
    have h₂ := congrArg List.length _h
    simp only [List.length_cons] at h₂
    simp only [List.length_dropLast, List.length_cons]
    omega

/-- Reads the arguments of an array: a value, or a key and a value. -/
def arrayArguments (args : List Char) : Except Ty.Fault Ty :=
  match _h : splitOutside ',' args with
  | key :: value :: _ => do
    let k ← expression key
    let v ← expression value
    return .arrayOf k (v.getD .mixed) false
  | [value] => (expression value).map fun v => .array (v.getD .mixed) false
  | [] => .ok .anyArray
termination_by 5 * args.length + 4
decreasing_by
  · have h : key ∈ splitOutside ',' args := by simp [_h]
    have := length_le_of_mem_splitOutside h
    omega
  · have h : value ∈ splitOutside ',' args := by simp [_h]
    have := length_le_of_mem_splitOutside h
    omega
  · have h : value ∈ splitOutside ',' args := by simp [_h]
    have := length_le_of_mem_splitOutside h
    omega

end

/-- Reads a type text; a text without a type in it gives none. -/
def parse (text : String) : Except Ty.Fault (Option Ty) :=
  expression text.toList

end TypeFacts.TypeText
