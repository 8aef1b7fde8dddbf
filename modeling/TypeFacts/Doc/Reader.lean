import TypeFacts.Doc.Block
import TypeFacts.Doc.TagReader
import TypeFacts.Memo
import TypeFacts.TypeText.Parse

/-!
# Reading doc comments

The delimiters and the star in front of each line are taken away. A line that begins with `@` and a
name is a tag; of the other lines the first is the summary and the rest form the description. A tag
is read by the reader registered for its name, and a reader that fails or understands nothing leaves
the tag as it was written.

`Reader` keeps the registered readers and the blocks read so far.
-/

namespace TypeFacts.Doc

/-! ### Taking the delimiters away -/

/-- Drops an opening delimiter: a slash and the stars behind it. -/
def dropOpening : List Char → List Char
  | '/' :: '*' :: cs => cs.dropWhile (· == '*')
  | cs => cs

/-- Drops a closing delimiter: a slash at the end and the stars before it. -/
def dropClosing (cs : List Char) : List Char :=
  match cs.reverse with
  | '/' :: '*' :: rest => (rest.dropWhile (· == '*')).reverse
  | _ => cs

/-- What follows the star of a line, which stands behind any blanks and not before a slash; one
space behind the star belongs to it. -/
def afterMarker? (cs : List Char) : Option (List Char) :=
  match Text.trimLeft cs with
  | '*' :: '/' :: _ => none
  | '*' :: ' ' :: rest => some rest
  | '*' :: rest => some rest
  | _ => none

theorem length_lt_of_afterMarker? {cs rest : List Char} (h : afterMarker? cs = some rest) :
    rest.length < cs.length := by
  have hle : (Text.trimLeft cs).length ≤ cs.length := Text.length_dropWhile_le Text.isBlank cs
  unfold afterMarker? at h
  split at h
  · cases h
  · next heq =>
    simp only [Option.some.injEq] at h
    subst h
    rw [heq] at hle
    simp only [List.length_cons] at hle
    omega
  · next heq =>
    simp only [Option.some.injEq] at h
    subst h
    rw [heq] at hle
    simp only [List.length_cons] at hle
    omega
  · cases h

/-- Drops the markers of all lines; the flag says whether the text begins a line. -/
def dropMarkers (lineStart : Bool) (cs : List Char) : List Char :=
  match _h : if lineStart then afterMarker? cs else none with
  | some rest => dropMarkers false rest
  | none =>
    match cs with
    | [] => []
    | c :: rest => c :: dropMarkers (c == '\n') rest
termination_by cs.length
decreasing_by
  · split at _h
    · exact length_lt_of_afterMarker? _h
    · cases _h
  · simp

/-- The lines of a comment that hold text, without delimiters, markers and outer blanks. -/
def contentLines (comment : String) : List (List Char) :=
  let body := dropMarkers true (dropClosing (dropOpening (Text.trim comment.toList)))
  ((Text.lines (Text.trim body)).map Text.trim).filter fun l => !l.isEmpty

/-! ### Tags -/

/-- The characters of a tag name. -/
def isTagNameChar (c : Char) : Bool :=
  Text.isWord c || c == '\\' || c == '-'

/-- The name and the content of a line that is a tag. -/
def tagLine? : List Char → Option (String × String)
  | '@' :: cs =>
    match cs.takeWhile isTagNameChar with
    | [] => none
    | name => some (String.ofList name, String.ofList (Text.trim (cs.dropWhile isTagNameChar)))
  | _ => none

/-- A text among the values of a tag reader. -/
def textValue? (name : String) (values : TagValues) : Option String :=
  match Pairs.get? name values with
  | some (.str s) => some s
  | _ => none

/-- A truth value among the values of a tag reader. -/
def boolValue (name : String) (values : TagValues) : Bool :=
  match Pairs.get? name values with
  | some (.bool b) => b
  | _ => false

/-- The values of a tag reader that have a place of their own in a tag. -/
def tagFields : List String :=
  ["type", "variable", "description", "variadic", "is_file_upload"]

/-- A tag with what a tag reader found in its content. -/
def withValues (name content : String) (values : TagValues) : DocTag :=
  { name := name
    content := content
    parsed := true
    type := textValue? "type" values
    var := textValue? "variable" values
    description := (textValue? "description" values).getD ""
    variadic := boolValue "variadic" values
    fileUpload := boolValue "is_file_upload" values
    attributes := values.filter fun v => !tagFields.contains v.1 }

/-- The reader registered for a tag name, as written or in lower case. -/
def readerFor? (readers : Table TagReader) (name : String) : Option TagReader :=
  (readers.get? name).orElse fun _ => readers.get? (Text.lower name)

/-- Reads a tag. -/
def readTag (readers : Table TagReader) (name content : String) : DocTag :=
  match readerFor? readers name with
  | none => { name := name, content := content }
  | some read =>
    match read content with
    | .error _ => { name := name, content := content }
    | .ok [] => { name := name, content := content }
    | .ok values => withValues name content values

/-- Adds one line of content to what was read before. -/
def addLine (readers : Table TagReader) (block : DocBlock) (line : List Char) : DocBlock :=
  match tagLine? line with
  | some (name, content) => { block with tags := block.tags ++ [readTag readers name content] }
  | none =>
    let text := String.ofList line
    if block.summary.isEmpty then { block with summary := text }
    else if block.description.isEmpty then { block with description := text }
    else { block with description := block.description ++ " " ++ text }

/-- Reads a doc comment. -/
def readBlock (readers : Table TagReader) (comment : String) : DocBlock :=
  (contentLines comment).foldl (addLine readers) {}

/-! ### Readers with a memo -/

/-- The registered tag readers and the blocks read so far. -/
structure Reader where
  readers : Table TagReader
  memo : Memo String DocBlock

namespace Reader

/-- A reader with the built-in tag readers and the given further ones. -/
def new (further : List (String × TagReader)) : Reader :=
  ⟨(Table.ofList builtinReaders).insertAll further, .empty⟩

/-- Registers a tag reader; blocks read with another one are forgotten. -/
def register (r : Reader) (name : String) (reader : TagReader) : Reader :=
  ⟨r.readers.insert name reader, r.memo.clear⟩

/-- Forgets the blocks read so far. -/
def clear (r : Reader) : Reader := { r with memo := r.memo.clear }

/-- Reads a doc comment, or takes it from the memo. The serial number tells blocks from the memo
apart; the empty block of a missing or empty comment is never stored and has none. -/
def parse (r : Reader) (comment : Option String) : (Option Nat × DocBlock) × Reader :=
  match comment with
  | none => ((none, {}), r)
  | some text =>
    if text.isEmpty then ((none, {}), r)
    else
      match r.memo.find? text with
      | some stored => ((some stored.serial, stored.value), r)
      | none =>
        let (stored, memo) := r.memo.store text (readBlock r.readers text)
        ((some stored.serial, stored.value), { r with memo := memo })

/-- The block of a doc comment and the reader after it. -/
def block (r : Reader) (comment : Option String) : DocBlock × Reader :=
  let ((_, b), r) := r.parse comment
  (b, r)

end Reader

/-! ### Documented types -/

/-- The type that a tag gives, taken as written. -/
def tagType (tag : Option DocTag) : Except Ty.Fault (Option Ty) :=
  match tag.bind (·.type) with
  | some text => TypeText.parse text
  | none => .ok none

/-- The documented type of a parameter. -/
def parameterType (b : DocBlock) (name : String) : Except Ty.Fault (Option Ty) :=
  tagType (b.paramTag? name)

/-- The documented type of the result. -/
def returnType (b : DocBlock) : Except Ty.Fault (Option Ty) :=
  tagType (b.firstTag? "return")

/-- The documented type of a variable or property. -/
def variableType (b : DocBlock) : Except Ty.Fault (Option Ty) :=
  tagType (b.firstTag? "var")

/-- The documented thrown types, as written but without backslashes in front. -/
def thrownTypes (b : DocBlock) : List String :=
  (b.tagsNamed "throws").filterMap fun t =>
    match t.type with
    | some "" => none
    | some text => some (Text.withoutBackslashes text)
    | none => none

end TypeFacts.Doc
