/-
Module: PatchShelf.Text.Lines
Purpose: Line boundaries, the lines of a text, and uniform line ends.
Main exports:
  Glyph.endsLine, Text.splitLines, Text.uniformLines
-/
import PatchShelf.Text.Basic

/-!
A line ends at a line feed, a carriage return, the pair of both, a vertical
tab, a form feed, one of the separators U+001C to U+001E, U+0085, U+2028 or
U+2029.  A boundary closes the line before it, so a text that ends in one has
no empty line after it.
-/

namespace PatchShelf

/-- Does a line end at this glyph? -/
def Glyph.endsLine : Glyph → Bool
  | .raw _ => false
  | .char scalar =>
    (0x0A ≤ scalar.toNat && scalar.toNat ≤ 0x0D)
      || (0x1C ≤ scalar.toNat && scalar.toNat ≤ 0x1E)
      || scalar.toNat == 0x85 || scalar.toNat == 0x2028 || scalar.toNat == 0x2029

namespace Text

/-- The lines of a text without their boundaries. -/
def splitLines : Text → List Text
  | [] => []
  | .char '\r' :: .char '\n' :: rest => [] :: splitLines rest
  | glyph :: rest =>
    if glyph.endsLine then [] :: splitLines rest
    else consHead glyph (splitLines rest)

/-- Every carriage return, alone or before a line feed, becomes a line feed. -/
def uniformLines : Text → Text
  | [] => []
  | .char '\r' :: .char '\n' :: rest => .char '\n' :: uniformLines rest
  | .char '\r' :: rest => .char '\n' :: uniformLines rest
  | glyph :: rest => glyph :: uniformLines rest

end Text

end PatchShelf
