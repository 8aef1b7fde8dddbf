import TypeFacts.Number.Decimal
import TypeFacts.Table
import TypeFacts.Text.Utf8

/-!
# Encodings

The encodings that source files may have. A name of an encoding is looked up in lower case and with
anything that is neither letter, digit nor dot taken as one separator. Bytes that an encoding does
not admit are reported with their place and the reason. An encoding that is not described here is
known by what it makes of bytes (`Encoding.Codec`).
-/

namespace TypeFacts

/-- An encoding of characters as bytes. -/
inductive Encoding where
  | utf8
  /-- UTF-8 after an optional mark at the beginning. -/
  | markedUtf8
  | latin1
  | ascii
  /-- UTF-16 whose byte order a mark at the beginning gives; without one the low byte
  comes first. -/
  | utf16
  | utf16Little
  | utf16Big
  deriving DecidableEq, Repr, Inhabited

namespace Encoding

/-- Bytes that an encoding does not admit. -/
structure Failure where
  /-- The name of the encoding as it is reported. -/
  encoding : String
  /-- The first of the bytes. -/
  first : UInt8
  /-- The number of bytes in front. -/
  position : Nat
  /-- The number of bytes. -/
  width : Nat
  reason : String
  deriving DecidableEq, Repr

/-- Two hexadecimal digits for a byte. -/
def byteText (b : UInt8) : String :=
  String.ofList (Number.hexDigits 2 b.toNat)

/-- The wording of a failure. -/
def Failure.message (f : Failure) : String :=
  "'" ++ f.encoding ++ "' codec can't decode " ++
    (if f.width == 1 then
      "byte 0x" ++ byteText f.first ++ " in position " ++ Number.natText f.position
    else
      "bytes in position " ++ Number.natText f.position ++ "-" ++
        Number.natText (f.position + f.width - 1)) ++
    ": " ++ f.reason

/-! ### Names -/

/-- The name in lower case, with every row of other characters between letters, digits and dots made
one low line. -/
def foldName (name : String) : String :=
  go false name.toList ""
where
  /-- Folds the rest of a name; the flag says whether a separator is due before the next letter. -/
  go (due : Bool) : List Char → String → String
    | [], done => done
    | c :: cs, done =>
      if c.isAlphanum || c == '.' then
        go false cs ((if due && !done.isEmpty then done.push '_' else done).push c.toLower)
      else go true cs done

/-- The encodings by their own names. -/
def ownNames : List (String × Encoding) :=
  [("utf_8", utf8), ("utf_8_sig", markedUtf8), ("latin_1", latin1), ("ascii", ascii),
    ("utf_16", utf16), ("utf_16_le", utf16Little), ("utf_16_be", utf16Big)]

/-- The encodings by other names. -/
def aliases : List (String × Encoding) :=
  [("utf8", utf8), ("u8", utf8), ("utf", utf8), ("cp65001", utf8), ("utf8_ucs2", utf8),
    ("utf8_ucs4", utf8),
    ("latin1", latin1), ("latin", latin1), ("l1", latin1), ("iso_8859_1", latin1),
    ("iso8859_1", latin1), ("iso8859", latin1), ("8859", latin1), ("cp819", latin1),
    ("ibm819", latin1), ("csisolatin1", latin1), ("iso_ir_100", latin1),
    ("iso_8859_1_1987", latin1),
    ("us_ascii", ascii), ("us", ascii), ("646", ascii), ("cp367", ascii), ("ibm367", ascii),
    ("csascii", ascii), ("iso646_us", ascii), ("iso_ir_6", ascii), ("iso_646.irv_1991", ascii),
    ("ansi_x3.4_1968", ascii), ("ansi_x3.4_1986", ascii), ("ansi_x3_4_1968", ascii),
    ("utf16", utf16), ("u16", utf16),
    ("utf_16le", utf16Little), ("unicodelittleunmarked", utf16Little),
    ("utf_16be", utf16Big), ("unicodebigunmarked", utf16Big)]

/-- The encoding of a name. In the other names of an encoding dots may stand for low lines. -/
def ofName? (name : String) : Option Encoding :=
  let folded := foldName name
  let undotted := folded.map fun c => if c == '.' then '_' else c
  ((Pairs.get? folded aliases).orElse fun _ => Pairs.get? undotted aliases).orElse fun _ =>
    Pairs.get? folded ownNames

/-! ### Decoding -/

/-- Strict UTF-8. -/
def decodeUtf8 (bytes : List UInt8) : Except Failure (List Char) :=
  match Utf8.strictChars 0 bytes with
  | .ok cs => .ok cs
  | .error f =>
    .error ⟨"utf-8", f.bytes.headD 0, f.position, f.bytes.length, f.trouble.message⟩

/-- Seven bits for each character. -/
def decodeAscii (position : Nat) : List UInt8 → Except Failure (List Char)
  | [] => .ok []
  | b :: bs =>
    if b.toNat < 0x80 then (decodeAscii (position + 1) bs).map (Char.ofNat b.toNat :: ·)
    else .error ⟨"ascii", b, position, 1, "ordinal not in range(128)"⟩

/-- The name that UTF-16 with a known byte order is reported by. -/
def utf16Name (big : Bool) : String := if big then "utf-16-be" else "utf-16-le"

/-- The unit that two bytes stand for. -/
def unitOf (big : Bool) (a b : UInt8) : Nat :=
  if big then a.toNat * 0x100 + b.toNat else b.toNat * 0x100 + a.toNat

/-- UTF-16 with a known byte order, from a position on. A unit from `D800` to `DBFF` needs one from
`DC00` to `DFFF` behind it, and such a unit never stands alone. -/
def decodeUtf16 (big : Bool) (position : Nat) : List UInt8 → Except Failure (List Char)
  | [] => .ok []
  | [a] => .error ⟨utf16Name big, a, position, 1, "truncated data"⟩
  | a :: b :: rest =>
    let unit := unitOf big a b
    if unit < 0xD800 || 0xE000 ≤ unit then
      (decodeUtf16 big (position + 2) rest).map (Char.ofNat unit :: ·)
    else if 0xDC00 ≤ unit then
      .error ⟨utf16Name big, a, position, 2, "illegal encoding"⟩
    else
      match rest with
      | c :: d :: rest =>
        let low := unitOf big c d
        if 0xDC00 ≤ low && low < 0xE000 then
          (decodeUtf16 big (position + 4) rest).map
            (Char.ofNat (0x10000 + (unit - 0xD800) * 0x400 + (low - 0xDC00)) :: ·)
        else .error ⟨utf16Name big, a, position, 2, "illegal UTF-16 surrogate"⟩
      | short => .error ⟨utf16Name big, a, position, 2 + short.length, "unexpected end of data"⟩

/-- The characters of a row of bytes. -/
def decode (e : Encoding) (bytes : List UInt8) : Except Failure (List Char) :=
  match e with
  | utf8 => decodeUtf8 bytes
  | markedUtf8 =>
    match bytes with
    | 0xEF :: 0xBB :: 0xBF :: rest => decodeUtf8 rest
    | bytes => decodeUtf8 bytes
  | latin1 => .ok (bytes.map fun b => Char.ofNat b.toNat)
  | ascii => decodeAscii 0 bytes
  | utf16 =>
    match bytes with
    | 0xFF :: 0xFE :: rest => decodeUtf16 false 2 rest
    | 0xFE :: 0xFF :: rest => decodeUtf16 true 2 rest
    | bytes => decodeUtf16 false 0 bytes
  | utf16Little => decodeUtf16 false 0 bytes
  | utf16Big => decodeUtf16 true 0 bytes

/-! ### Further encodings -/

/-- What an encoding says of bytes that it refuses: the word for the kind, and the text. -/
structure Refusal where
  kind : String
  message : String
  deriving DecidableEq, Repr

/-- An encoding by what it makes of bytes: the same characters in UTF-8, or a refusal. -/
abbrev Codec := List UInt8 → Except Refusal (List UInt8)

end Encoding

end TypeFacts
