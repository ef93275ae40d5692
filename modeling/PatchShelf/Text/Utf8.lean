/-
Module: PatchShelf.Text.Utf8
Purpose: UTF-8 in both directions, with three ways to treat bytes outside it.
Main exports:
  Bytes, Utf8.pieces, Utf8.decode, Utf8.decodeEscaped, Utf8.decodeReplaced,
  Utf8.encode, Utf8.encodeValid
-/
import PatchShelf.Text.Basic

/-!
A byte string is cut into pieces: each is one encoded scalar value or one
maximal part of a sequence that breaks off.  A lead byte fixes how many
continuation bytes follow and, for the first of them, which range keeps out
overlong forms, surrogates and values above U+10FFFF.

The three decoders differ only in what they make of a broken piece: `decode`
refuses it, `decodeEscaped` keeps each of its bytes as a stray byte, and
`decodeReplaced` writes one U+FFFD for it.  `encode` puts stray bytes back as
they were; `encodeValid` refuses them.
-/

namespace PatchShelf

/-- A byte string. -/
abbrev Bytes := List UInt8

namespace Utf8

/-- Why a piece of a byte string is no encoded scalar value. -/
inductive Flaw where
  | start
  | continuation
  | truncated
deriving Repr, DecidableEq

/-- The rule a flaw breaks, in words. -/
def Flaw.describe : Flaw → Text
  | .start => "invalid start byte"
  | .continuation => "invalid continuation byte"
  | .truncated => "unexpected end of data"

/-- One encoded scalar value, or the longest beginning of one that breaks off. -/
inductive Piece where
  | scalar (value : Char)
  | broken (bytes : Bytes) (flaw : Flaw)
deriving Repr, DecidableEq

/-- What a lead byte above `0x7F` announces: the number of continuation bytes,
the bits it carries itself, and the range of the first continuation byte. -/
structure Lead where
  count : Nat
  payload : Nat
  low : UInt8
  high : UInt8
deriving Repr, DecidableEq

/-- The lead bytes of sequences of two, three and four bytes. -/
def lead? (byte : UInt8) : Option Lead :=
  if byte < 0xC2 then none
  else if byte ≤ 0xDF then some ⟨1, byte.toNat - 0xC0, 0x80, 0xBF⟩
  else if byte = 0xE0 then some ⟨2, 0, 0xA0, 0xBF⟩
  else if byte = 0xED then some ⟨2, 0xD, 0x80, 0x9F⟩
  else if byte ≤ 0xEF then some ⟨2, byte.toNat - 0xE0, 0x80, 0xBF⟩
  else if byte = 0xF0 then some ⟨3, 0, 0x90, 0xBF⟩
  else if byte ≤ 0xF3 then some ⟨3, byte.toNat - 0xF0, 0x80, 0xBF⟩
  else if byte = 0xF4 then some ⟨3, 4, 0x80, 0x8F⟩
  else none

/-- The longest run of at most `count` continuation bytes, the first of them
between `low` and `high`. -/
def continuations : (count : Nat) → (low high : UInt8) → Bytes → Bytes
  | 0, _, _, _ => []
  | _ + 1, _, _, [] => []
  | count + 1, low, high, byte :: rest =>
    if low ≤ byte ∧ byte ≤ high then byte :: continuations count 0x80 0xBF rest
    else []

/-- The number that a lead's bits and its continuation bytes spell. -/
def spell (payload : Nat) (tail : Bytes) : Nat :=
  tail.foldl (fun value byte => value * 64 + (byte.toNat - 0x80)) payload

/-- The piece at the front of `first :: rest`. -/
def front (first : UInt8) (rest : Bytes) : Piece :=
  if first < 0x80 then .scalar (Char.ofNat first.toNat)
  else
    match lead? first with
    | none => .broken [first] .start
    | some lead =>
      let tail := continuations lead.count lead.low lead.high rest
      if tail.length = lead.count then .scalar (Char.ofNat (spell lead.payload tail))
      else if tail.length = rest.length then .broken (first :: tail) .truncated
      else .broken (first :: tail) .continuation

/-- The number of bytes after the first that the front piece takes. -/
def frontTail (first : UInt8) (rest : Bytes) : Nat :=
  if first < 0x80 then 0
  else
    match lead? first with
    | none => 0
    | some lead => (continuations lead.count lead.low lead.high rest).length

/-- The pieces of a byte string after its first `skip` bytes. -/
def piecesAfter : (skip : Nat) → Bytes → List Piece
  | _, [] => []
  | skip + 1, _ :: rest => piecesAfter skip rest
  | 0, first :: rest => front first rest :: piecesAfter (frontTail first rest) rest

/-- The pieces of a byte string, in order. -/
def pieces (bytes : Bytes) : List Piece :=
  piecesAfter 0 bytes

/-- A byte above `0x7F` as a stray byte of text. -/
def strayByte (byte : UInt8) : Glyph :=
  .raw (Fin.ofNat 128 byte.toNat)

/-- A broken piece as stray bytes, one glyph a byte. -/
def Piece.escaped : Piece → Text
  | .scalar value => [.char value]
  | .broken bytes _ => bytes.map strayByte

/-- A broken piece as one replacement character. -/
def Piece.replaced : Piece → Glyph
  | .scalar value => .char value
  | .broken _ _ => .char '\uFFFD'

/-- Decode, keeping the bytes of broken pieces as stray bytes. -/
def decodeEscaped (bytes : Bytes) : Text :=
  (pieces bytes).flatMap Piece.escaped

/-- Decode, writing U+FFFD for each broken piece. -/
def decodeReplaced (bytes : Bytes) : Text :=
  (pieces bytes).map Piece.replaced

/-- The bytes of a scalar value. -/
def encodeScalar (value : Nat) : Bytes :=
  if value < 0x80 then [UInt8.ofNat value]
  else if value < 0x800 then
    [UInt8.ofNat (0xC0 + value / 64), UInt8.ofNat (0x80 + value % 64)]
  else if value < 0x10000 then
    [UInt8.ofNat (0xE0 + value / 4096), UInt8.ofNat (0x80 + value / 64 % 64),
      UInt8.ofNat (0x80 + value % 64)]
  else
    [UInt8.ofNat (0xF0 + value / 262144), UInt8.ofNat (0x80 + value / 4096 % 64),
      UInt8.ofNat (0x80 + value / 64 % 64), UInt8.ofNat (0x80 + value % 64)]

/-- The bytes of a glyph: a stray byte is itself. -/
def encodeGlyph : Glyph → Bytes
  | .char scalar => encodeScalar scalar.toNat
  | .raw offset => [UInt8.ofNat (0x80 + offset.val)]

/-- The bytes of a text, stray bytes put back as they were. -/
def encode (text : Text) : Bytes :=
  text.flatMap encodeGlyph

/-- Where strict decoding stops: the broken bytes, how many bytes stand before
them, and what is wrong with them. -/
structure DecodeFailure where
  position : Nat
  bytes : Bytes
  flaw : Flaw
deriving Repr, DecidableEq

/-- The wording of a decoding failure. -/
def DecodeFailure.message (failure : DecodeFailure) : Text :=
  let place : Text := match failure.bytes with
    | [byte] =>
      "byte 0x" ++ Text.ofHex 2 byte.toNat ++ " in position " ++ Text.ofNat failure.position
    | bytes =>
      "bytes in position " ++ Text.ofNat failure.position ++ "-"
        ++ Text.ofNat (failure.position + bytes.length - 1)
  "'utf-8' codec can't decode " ++ place ++ ": " ++ failure.flaw.describe

/-- The text of pieces none of which is broken; `position` counts the bytes
before the first of them. -/
def decodePieces : (position : Nat) → List Piece → Except DecodeFailure Text
  | _, [] => .ok []
  | position, .scalar value :: rest =>
    match decodePieces (position + (encodeScalar value.toNat).length) rest with
    | .ok text => .ok (.char value :: text)
    | .error failure => .error failure
  | position, .broken bytes flaw :: _ => .error ⟨position, bytes, flaw⟩

/-- Decode, refusing broken pieces. -/
def decode (bytes : Bytes) : Except DecodeFailure Text :=
  decodePieces 0 (pieces bytes)

/-- Where strict encoding stops: a run of stray bytes and the glyphs before it. -/
structure EncodeFailure where
  position : Nat
  first : Glyph
  count : Nat
deriving Repr, DecidableEq

/-- The wording of an encoding failure. -/
def EncodeFailure.message (failure : EncodeFailure) : Text :=
  let place : Text :=
    if failure.count = 1 then
      "character '\\u" ++ Text.ofHex 4 failure.first.code ++ "' in position "
        ++ Text.ofNat failure.position
    else
      "characters in position " ++ Text.ofNat failure.position ++ "-"
        ++ Text.ofNat (failure.position + failure.count - 1)
  "'utf-8' codec can't encode " ++ place ++ ": surrogates not allowed"

/-- Encode, refusing stray bytes. -/
def encodeValid (text : Text) : Except EncodeFailure Bytes :=
  match text.dropWhile (fun glyph => !glyph.isRaw) with
  | [] => .ok (encode text)
  | first :: rest =>
    .error ⟨text.length - (rest.length + 1), first, (rest.takeWhile Glyph.isRaw).length + 1⟩

theorem piecesAfter_eq_drop (skip : Nat) (bytes : Bytes) :
    piecesAfter skip bytes = pieces (bytes.drop skip) := by
  induction bytes generalizing skip with
  | nil => simp [pieces, piecesAfter]
  | cons first rest ih =>
    cases skip with
    | zero => simp [pieces]
    | succ skip => simp [piecesAfter, ih]

theorem pieces_cons (first : UInt8) (rest : Bytes) :
    pieces (first :: rest) = front first rest :: pieces (rest.drop (frontTail first rest)) := by
  rw [← piecesAfter_eq_drop]; rfl

@[simp] theorem encode_append (left right : Text) :
    encode (left ++ right) = encode left ++ encode right := by
  simp [encode]

end Utf8

end PatchShelf
