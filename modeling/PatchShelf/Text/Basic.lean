/-
Module: PatchShelf.Text.Basic
Purpose: Text that may hold bytes which belong to no UTF-8 sequence.
Main exports:
  Glyph, Glyph.code, Text, Text.ofString, Text.ofHex, Text.precedes,
  Text.padLeft, Text.padRight, Text.splitOn, Text.joinWith
-/

/-!
Command-line arguments, tool output and file names arrive as bytes that need
not be UTF-8.  A `Text` keeps such bytes apart from characters: it is a list
of glyphs, each a Unicode scalar value or one stray byte.  Widths, cuts and
order count glyphs, and a stray byte sorts at the code point U+DC80 + n, just
below the private use area.
-/

namespace PatchShelf

/-- One unit of text: a Unicode scalar value, or the stray byte `0x80 + offset`. -/
inductive Glyph where
  | char (scalar : Char)
  | raw (offset : Fin 128)
deriving Repr, DecidableEq, Inhabited

/-- Text is a list of glyphs. -/
abbrev Text := List Glyph

namespace Glyph

/-- The position of a glyph in the order of text. -/
def code : Glyph → Nat
  | char scalar => scalar.toNat
  | raw offset => 0xDC80 + offset.val

/-- Does the glyph stand for a byte outside every UTF-8 sequence? -/
def isRaw : Glyph → Bool
  | char _ => false
  | raw _ => true

/-- The glyph is this character. -/
def isChar (glyph : Glyph) (scalar : Char) : Bool :=
  glyph == .char scalar

end Glyph

instance : Coe Char Glyph := ⟨Glyph.char⟩

namespace Text

/-- The text of a string, one glyph a character. -/
def ofString (source : String) : Text :=
  source.toList.map Glyph.char

instance : Coe String Text := ⟨ofString⟩

/-- A natural number in decimal digits. -/
def ofNat (number : Nat) : Text :=
  ofString (toString number)

/-- An integer in decimal digits, with a minus sign when it is negative. -/
def ofInt (number : Int) : Text :=
  ofString (toString number)

/-- A natural number in small hexadecimal digits, zeros in front up to a width. -/
def ofHex (width number : Nat) : Text :=
  let digits := (Nat.toDigits 16 number).map Glyph.char
  List.replicate (width - digits.length) (Glyph.char '0') ++ digits

/-- The code points of a text. -/
def codes (text : Text) : List Nat :=
  text.map Glyph.code

/-- The order of lists of code points, a proper beginning before what it begins. -/
def codesPrecede : List Nat → List Nat → Bool
  | [], _ => true
  | _ :: _, [] => false
  | left :: leftRest, right :: rightRest =>
    if left < right then true
    else if right < left then false
    else codesPrecede leftRest rightRest

/-- Order by code point, a proper beginning before what it begins; equal texts
precede each other. -/
def precedes (left right : Text) : Bool :=
  codesPrecede left.codes right.codes

/-- Does the text hold a stray byte? -/
def hasRaw (text : Text) : Bool :=
  text.any Glyph.isRaw

/-- Does the text hold this character? -/
def holds (text : Text) (scalar : Char) : Bool :=
  text.any (·.isChar scalar)

/-- Does the text begin with `lead`? -/
def beginsWith (text lead : Text) : Bool :=
  lead.isPrefixOf text

/-- Does the text end with `tail`? -/
def endsWith (text tail : Text) : Bool :=
  tail.isSuffixOf text

/-- Blanks after the text up to a width. -/
def padRight (width : Nat) (text : Text) : Text :=
  text ++ List.replicate (width - text.length) (Glyph.char ' ')

/-- Blanks before the text up to a width. -/
def padLeft (width : Nat) (text : Text) : Text :=
  List.replicate (width - text.length) (Glyph.char ' ') ++ text

/-- Drop the longest end whose glyphs all satisfy the test. -/
def dropEndWhile (test : Glyph → Bool) (text : Text) : Text :=
  (text.reverse.dropWhile test).reverse

/-- Put a glyph in front of the first field of a list of fields. -/
def consHead (glyph : Glyph) : List Text → List Text
  | [] => [[glyph]]
  | field :: fields => (glyph :: field) :: fields

/-- The fields between the occurrences of a separator; always at least one. -/
def splitOn (separator : Char) : Text → List Text
  | [] => [[]]
  | glyph :: rest =>
    if glyph.isChar separator then [] :: splitOn separator rest
    else consHead glyph (splitOn separator rest)

/-- The fields with a separator between neighbours. -/
def joinWith (separator : Text) : List Text → Text
  | [] => []
  | [field] => field
  | field :: fields => field ++ separator ++ joinWith separator fields

/-- ASCII capital letters become small ones; all else stays. -/
def lowerAscii (text : Text) : Text :=
  text.map fun
    | .char scalar => .char scalar.toLower
    | .raw offset => .raw offset

@[simp] theorem codes_nil : codes [] = [] := rfl

@[simp] theorem codes_cons (glyph : Glyph) (text : Text) :
    codes (glyph :: text) = glyph.code :: codes text := rfl

theorem length_padRight (width : Nat) (text : Text) :
    (padRight width text).length = max width text.length := by
  simp [padRight]; omega

theorem length_padLeft (width : Nat) (text : Text) :
    (padLeft width text).length = max width text.length := by
  simp [padLeft]; omega

theorem consHead_ne_nil (glyph : Glyph) (fields : List Text) :
    consHead glyph fields ≠ [] := by
  cases fields <;> simp [consHead]

theorem splitOn_ne_nil (separator : Char) (text : Text) :
    splitOn separator text ≠ [] := by
  cases text with
  | nil => simp [splitOn]
  | cons glyph rest =>
    simp only [splitOn]
    split
    · simp
    · exact consHead_ne_nil _ _

end Text

end PatchShelf
