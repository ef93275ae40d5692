/-
Module: PatchShelf.Text.Blank
Purpose: White space, and cutting it off at the ends of a text.
Main exports:
  Glyph.isBlank, Text.isBlank, Text.strip
-/
import PatchShelf.Text.Basic

/-!
White space is the Unicode property, with the four information separators
U+001C to U+001F added.  The zero-width space U+200B, the byte order mark
U+FEFF and stray bytes are not white space.
-/

namespace PatchShelf

/-- Closed ranges of the white-space code points. -/
def blankRanges : List (Nat × Nat) := [
  (0x09, 0x0D), (0x1C, 0x20), (0x85, 0x85), (0xA0, 0xA0), (0x1680, 0x1680),
  (0x2000, 0x200A), (0x2028, 0x2029), (0x202F, 0x202F), (0x205F, 0x205F),
  (0x3000, 0x3000)]

/-- Is the glyph white space? -/
def Glyph.isBlank : Glyph → Bool
  | .raw _ => false
  | .char scalar =>
    blankRanges.any fun range => range.1 ≤ scalar.toNat && scalar.toNat ≤ range.2

namespace Text

/-- Is there nothing but white space? -/
def isBlank (text : Text) : Bool :=
  text.all Glyph.isBlank

/-- The text without the white space at both its ends. -/
def strip (text : Text) : Text :=
  dropEndWhile Glyph.isBlank (text.dropWhile Glyph.isBlank)

end Text

end PatchShelf
