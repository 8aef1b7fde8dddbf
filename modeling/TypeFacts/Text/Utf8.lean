/-!
# UTF-8

The text that a row of bytes stands for. A well-formed character is one to four bytes long; where no
character is well formed, the longest row of bytes that might have begun one is set aside. `lossy`
leaves such bytes out, `strict` refuses them.
-/

namespace TypeFacts.Utf8

/-- Why bytes are no character. -/
inductive Trouble where
  | badStart
  | badContinuation
  | endOfData
  deriving DecidableEq, Repr

/-- The wording of a trouble. -/
def Trouble.message : Trouble → String
  | badStart => "invalid start byte"
  | badContinuation => "invalid continuation byte"
  | endOfData => "unexpected end of data"

/-- What stands in front of a row of bytes. -/
inductive Front where
  /-- A character of so many bytes. -/
  | char (c : Char) (width : Nat)
  /-- So many bytes that are no character. -/
  | bad (trouble : Trouble) (width : Nat)
  deriving DecidableEq, Repr

/-- Is the byte one that continues a character? -/
def isTail (b : Nat) : Bool := 0x80 ≤ b && b ≤ 0xBF

/-- May the byte be the second one of a character with the given first byte? Forms longer than
needed, halves of pairs and numbers beyond the last character are kept out. -/
def isSecond (first b : Nat) : Bool :=
  if first == 0xE0 then 0xA0 ≤ b && b ≤ 0xBF
  else if first == 0xED then 0x80 ≤ b && b ≤ 0x9F
  else if first == 0xF0 then 0x90 ≤ b && b ≤ 0xBF
  else if first == 0xF4 then 0x80 ≤ b && b ≤ 0x8F
  else isTail b

/-- What stands in front of the byte `b` and the bytes behind it. -/
def front (b : UInt8) (rest : List UInt8) : Front :=
  let a := b.toNat
  if a < 0x80 then .char (Char.ofNat a) 1
  else if 0xC2 ≤ a && a ≤ 0xDF then
    match rest with
    | [] => .bad .endOfData 1
    | c :: _ =>
      if isTail c.toNat then .char (Char.ofNat ((a - 0xC0) * 0x40 + (c.toNat - 0x80))) 2
      else .bad .badContinuation 1
  else if 0xE0 ≤ a && a ≤ 0xEF then
    match rest with
    | [] => .bad .endOfData 1
    | c :: rest =>
      if isSecond a c.toNat then
        match rest with
        | [] => .bad .endOfData 2
        | d :: _ =>
          if isTail d.toNat then
            .char (Char.ofNat ((a - 0xE0) * 0x1000 + (c.toNat - 0x80) * 0x40 + (d.toNat - 0x80))) 3
          else .bad .badContinuation 2
      else .bad .badContinuation 1
  else if 0xF0 ≤ a && a ≤ 0xF4 then
    match rest with
    | [] => .bad .endOfData 1
    | c :: rest =>
      if isSecond a c.toNat then
        match rest with
        | [] => .bad .endOfData 2
        | d :: rest =>
          if isTail d.toNat then
            match rest with
            | [] => .bad .endOfData 3
            | e :: _ =>
              if isTail e.toNat then
                .char (Char.ofNat ((a - 0xF0) * 0x40000 + (c.toNat - 0x80) * 0x1000 +
                  (d.toNat - 0x80) * 0x40 + (e.toNat - 0x80))) 4
              else .bad .badContinuation 3
          else .bad .badContinuation 2
      else .bad .badContinuation 1
  else .bad .badStart 1

/-- The text of a row of bytes, with what is no character left out. -/
def lossyChars (bytes : List UInt8) : List Char :=
  match bytes with
  | [] => []
  | b :: rest =>
    match front b rest with
    | .char c width => c :: lossyChars (rest.drop (width - 1))
    | .bad _ width => lossyChars (rest.drop (width - 1))
termination_by bytes.length
decreasing_by all_goals simp only [List.length_drop, List.length_cons]; omega

/-- The text of a row of bytes, with what is no character left out. -/
def lossy (bytes : List UInt8) : String :=
  String.ofList (lossyChars bytes)

/-- Bytes that are no character, and where they stand. -/
structure Failure where
  trouble : Trouble
  /-- The number of bytes in front. -/
  position : Nat
  /-- The bytes. -/
  bytes : List UInt8
  deriving DecidableEq, Repr

/-- The characters of a row of bytes at the given position, all of which have to be well formed. -/
def strictChars (position : Nat) (bytes : List UInt8) : Except Failure (List Char) :=
  match bytes with
  | [] => .ok []
  | b :: rest =>
    match front b rest with
    | .char c width => (strictChars (position + width) (rest.drop (width - 1))).map (c :: ·)
    | .bad trouble width => .error ⟨trouble, position, (b :: rest).take width⟩
termination_by bytes.length
decreasing_by simp only [List.length_drop, List.length_cons]; omega

/-- The bytes of a character. -/
def encodeChar (c : Char) : List UInt8 :=
  let n := c.toNat
  if n < 0x80 then [n.toUInt8]
  else if n < 0x800 then [(0xC0 + n / 0x40).toUInt8, (0x80 + n % 0x40).toUInt8]
  else if n < 0x10000 then
    [(0xE0 + n / 0x1000).toUInt8, (0x80 + n / 0x40 % 0x40).toUInt8, (0x80 + n % 0x40).toUInt8]
  else
    [(0xF0 + n / 0x40000).toUInt8, (0x80 + n / 0x1000 % 0x40).toUInt8,
      (0x80 + n / 0x40 % 0x40).toUInt8, (0x80 + n % 0x40).toUInt8]

/-- The bytes of a text. -/
def encode (s : String) : List UInt8 :=
  s.toList.flatMap encodeChar

end TypeFacts.Utf8
