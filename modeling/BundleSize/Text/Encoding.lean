import BundleSize.Text.Character

/-!
# Text from bytes

Files hold bytes. A text file is read as UTF-8, strictly: the first
sequence that is not well formed is an error that names its place and its
kind. Diagnostics of another program are read leniently, each ill-formed
sequence becoming one replacement character.

A JSON document given as bytes may also be in UTF-16 or UTF-32; which one
is seen from a byte order mark or from the zero bytes among its first four.
In such a document a surrogate code point is let through, and stands as a
replacement character because no text can hold it.
-/

namespace BundleSize.Text

/-- The bytes of a text file, in order. -/
abbrev Bytes := List UInt8

/-- The encodings that are read, each with its fixed byte order. -/
inductive Encoding where
  | utf8 | utf16le | utf16be | utf32le | utf32be
  deriving Repr, DecidableEq

def Encoding.name : Encoding → String
  | .utf8 => "utf-8"
  | .utf16le => "utf-16-le"
  | .utf16be => "utf-16-be"
  | .utf32le => "utf-32-le"
  | .utf32be => "utf-32-be"

/-- What is wrong with an ill-formed sequence. -/
inductive DecodingFault where
  /-- The byte starts no sequence. -/
  | invalidStart
  /-- A byte that should continue the sequence does not. -/
  | invalidContinuation
  /-- The input ends inside a UTF-8 sequence. -/
  | unexpectedEnd
  /-- The input ends inside a code unit. -/
  | truncated
  /-- The code unit is no code point. -/
  | outOfRange
  deriving Repr, DecidableEq

def DecodingFault.message : DecodingFault → String
  | .invalidStart => "invalid start byte"
  | .invalidContinuation => "invalid continuation byte"
  | .unexpectedEnd => "unexpected end of data"
  | .truncated => "truncated data"
  | .outOfRange => "code point not in range(0x110000)"

/-- The first ill-formed sequence of an input: the bytes from `start` up to `stop`. -/
structure DecodingError where
  encoding : Encoding
  start : Nat
  stop : Nat
  /-- The byte at `start`. -/
  byte : UInt8
  fault : DecodingFault
  deriving Repr, DecidableEq

/-- Names the byte when there is one, and the positions when there are more. -/
def DecodingError.message (e : DecodingError) : String :=
  let place :=
    if e.stop = e.start + 1 then
      "byte 0x" ++ String.ofList (hexDigits 2 e.byte.toNat) ++ " in position " ++ toString e.start
    else
      "bytes in position " ++ toString e.start ++ "-" ++ toString (e.stop - 1)
  "'" ++ e.encoding.name ++ "' codec can't decode " ++ place ++ ": " ++ e.fault.message

/-- The stand-in for what no character can represent. -/
def replacement : Char := '\ufffd'

/-- The character of a code point, or the stand-in for a surrogate. -/
def scalar (n : Nat) : Char := if n.isValidChar then Char.ofNat n else replacement

/-- One step of reading: a character or a fault, with the number of bytes it takes. -/
inductive Step where
  | char (c : Char) (width : Nat)
  | fault (fault : DecodingFault) (width : Nat)
  deriving Repr, DecidableEq

namespace Utf8

/-- Reads `more` continuation bytes; the first of them has to lie between `lo` and `hi`. -/
def tail : (more : Nat) → (lo hi : UInt8) → (value width : Nat) → Bytes → Step
  | 0, _, _, value, width, _ => .char (scalar value) width
  | _ + 1, _, _, _, width, [] => .fault .unexpectedEnd width
  | more + 1, lo, hi, value, width, b :: rest =>
    if lo ≤ b ∧ b ≤ hi then
      tail more 0x80 0xbf (value * 64 + (b.toNat - 0x80)) (width + 1) rest
    else .fault .invalidContinuation width

/-- The two bytes that complete a surrogate follow. -/
def completesSurrogate : Bytes → Bool
  | b :: c :: _ => 0xa0 ≤ b && b ≤ 0xbf && 0x80 ≤ c && c ≤ 0xbf
  | _ => false

/-- The sequence that `b` starts. Overlong forms, code points past the last one and surrogates are
ruled out by the bounds on the second byte; whole surrogates pass if `surrogates` are let
through. -/
def step (surrogates : Bool) (b : UInt8) (rest : Bytes) : Step :=
  let n := b.toNat
  if n < 0x80 then .char (Char.ofNat n) 1
  else if n < 0xc2 then .fault .invalidStart 1
  else if n < 0xe0 then tail 1 0x80 0xbf (n - 0xc0) 1 rest
  else if n < 0xf0 then
    let lo : UInt8 := if n = 0xe0 then 0xa0 else 0x80
    let hi : UInt8 := if n = 0xed ∧ !(surrogates && completesSurrogate rest) then 0x9f else 0xbf
    tail 2 lo hi (n - 0xe0) 1 rest
  else if n < 0xf5 then
    let lo : UInt8 := if n = 0xf0 then 0x90 else 0x80
    let hi : UInt8 := if n = 0xf4 then 0x8f else 0xbf
    tail 3 lo hi (n - 0xf0) 1 rest
  else .fault .invalidStart 1

/-- Strict reading, from the byte at offset `pos` on. -/
def decodeFrom (surrogates : Bool) (pos : Nat) : Bytes → Except DecodingError (List Char)
  | [] => .ok []
  | b :: rest =>
    match step surrogates b rest with
    | .char c width => (decodeFrom surrogates (pos + width) (rest.drop (width - 1))).map (c :: ·)
    | .fault fault width => .error ⟨.utf8, pos, pos + width, b, fault⟩
  termination_by bytes => bytes.length
  decreasing_by simp only [List.length_drop, List.length_cons]; omega

/-- Strict reading of a whole input. -/
def decode (bytes : Bytes) : Except DecodingError String :=
  (decodeFrom false 0 bytes).map String.ofList

/-- Lenient reading: every ill-formed sequence becomes one replacement character. -/
def decodeLossy : Bytes → List Char
  | [] => []
  | b :: rest =>
    match step false b rest with
    | .char c width => c :: decodeLossy (rest.drop (width - 1))
    | .fault _ width => replacement :: decodeLossy (rest.drop (width - 1))
  termination_by bytes => bytes.length
  decreasing_by all_goals simp only [List.length_drop, List.length_cons]; omega

/-- The bytes of a text. -/
def encode (s : String) : Bytes := s.toUTF8.toList

end Utf8

/-- The number of a code unit of two bytes in the given order. -/
def unit16 (bigEndian : Bool) (a b : UInt8) : Nat :=
  if bigEndian then a.toNat * 256 + b.toNat else b.toNat * 256 + a.toNat

/-- UTF-16 from the byte at offset `pos` on; a surrogate without its partner stands for itself. -/
def decode16 (bigEndian : Bool) (pos : Nat) : Bytes → Except DecodingError (List Char)
  | [] => .ok []
  | [b] => .error ⟨if bigEndian then .utf16be else .utf16le, pos, pos + 1, b, .truncated⟩
  | [a, b] => .ok [scalar (unit16 bigEndian a b)]
  | [a, b, c] =>
    (decode16 bigEndian (pos + 2) [c]).map (scalar (unit16 bigEndian a b) :: ·)
  | a :: b :: c :: d :: rest =>
    let high := unit16 bigEndian a b
    let low := unit16 bigEndian c d
    if 0xd800 ≤ high ∧ high < 0xdc00 ∧ 0xdc00 ≤ low ∧ low < 0xe000 then
      (decode16 bigEndian (pos + 4) rest).map
        (scalar (0x10000 + (high - 0xd800) * 1024 + (low - 0xdc00)) :: ·)
    else
      (decode16 bigEndian (pos + 2) (c :: d :: rest)).map (scalar high :: ·)
  termination_by bytes => bytes.length

/-- UTF-32 from the byte at offset `pos` on. -/
def decode32 (bigEndian : Bool) (pos : Nat) : Bytes → Except DecodingError (List Char)
  | [] => .ok []
  | a :: b :: c :: d :: rest =>
    let value :=
      if bigEndian then unit16 true a b * 65536 + unit16 true c d
      else unit16 false c d * 65536 + unit16 false a b
    if value < 0x110000 then (decode32 bigEndian (pos + 4) rest).map (scalar value :: ·)
    else .error ⟨if bigEndian then .utf32be else .utf32le, pos, pos + 4, a, .outOfRange⟩
  | bytes@(b :: _) =>
    .error ⟨if bigEndian then .utf32be else .utf32le, pos, pos + bytes.length, b, .truncated⟩

/-- A JSON document given as bytes: its encoding is told by a byte order mark or, because a
document starts with two ASCII characters, by which of its first bytes are zero. -/
def decodeDocument (bytes : Bytes) : Except DecodingError (List Char) :=
  match bytes with
  | 0 :: 0 :: 0xfe :: 0xff :: rest => decode32 true 4 rest
  | 0xff :: 0xfe :: 0 :: 0 :: rest => decode32 false 4 rest
  | 0xfe :: 0xff :: rest => decode16 true 2 rest
  | 0xff :: 0xfe :: rest => decode16 false 2 rest
  | 0xef :: 0xbb :: 0xbf :: rest => Utf8.decodeFrom true 0 rest
  | a :: b :: c :: d :: _ =>
    if a = 0 then if b = 0 then decode32 true 0 bytes else decode16 true 0 bytes
    else if b = 0 then
      if c = 0 ∧ d = 0 then decode32 false 0 bytes else decode16 false 0 bytes
    else Utf8.decodeFrom true 0 bytes
  | [a, b] =>
    if a = 0 then decode16 true 0 bytes
    else if b = 0 then decode16 false 0 bytes
    else Utf8.decodeFrom true 0 bytes
  | _ => Utf8.decodeFrom true 0 bytes

end BundleSize.Text
