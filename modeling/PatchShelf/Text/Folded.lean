/-
Module: PatchShelf.Text.Folded
Purpose: Comparing texts with ASCII words without regard to letter case.
Main exports:
  Glyph.folded, Text.folded
-/
import PatchShelf.Text.Basic

/-!
Full case folding turns capital letters into small ones and some letters into
several.  Only foldings that give ASCII letters matter for a comparison with an
ASCII word; besides the ASCII capitals these are the long s, the Kelvin sign, the
two sharp s and the Latin ligatures.  All other letters are left as they are.
-/

namespace PatchShelf

/-- The letters beyond ASCII whose folding is ASCII. -/
def asciiFoldings : List (Char × Text) :=
  [('\u00DF', "ss"), ('\u017F', "s"), ('\u1E9E', "ss"), ('\u212A', "k"), ('\uFB00', "ff"),
    ('\uFB01', "fi"), ('\uFB02', "fl"), ('\uFB03', "ffi"), ('\uFB04', "ffl"), ('\uFB05', "st"),
    ('\uFB06', "st")]

/-- A glyph after folding. -/
def Glyph.folded : Glyph → Text
  | .char scalar =>
    match asciiFoldings.find? fun pair => pair.1 == scalar with
    | some pair => pair.2
    | none => [.char scalar.toLower]
  | .raw offset => [.raw offset]

/-- A text after folding. -/
def Text.folded (text : Text) : Text :=
  text.flatMap Glyph.folded

end PatchShelf
