/-
Module: PatchShelf.Text.Terminal
Purpose: Taking terminal control sequences out of a text.
Main exports:
  Text.controlLength, Text.withoutControls
-/
import PatchShelf.Text.Basic

/-!
A control sequence is an escape character, an opening bracket, any number of
digits, semicolons and question marks, and one ASCII letter.  An escape
character that starts no such sequence is left alone.
-/

namespace PatchShelf

namespace Text

/-- Does the glyph belong to the parameters of a control sequence? -/
def isControlParameter : Glyph → Bool
  | .char scalar => scalar.isDigit || scalar == ';' || scalar == '?'
  | .raw _ => false

/-- Is the glyph an ASCII letter? -/
def isAsciiLetter : Glyph → Bool
  | .char scalar => scalar.isAlpha
  | .raw _ => false

/-- The length of the control sequence that a text begins with, or zero. -/
def controlLength : Text → Nat
  | .char '\x1b' :: .char '[' :: rest =>
    match rest.dropWhile isControlParameter with
    | final :: _ =>
      if isAsciiLetter final then (rest.takeWhile isControlParameter).length + 3 else 0
    | [] => 0
  | _ => 0

/-- The text after its first `skip` glyphs, without control sequences. -/
def withoutControlsAfter : (skip : Nat) → Text → Text
  | _, [] => []
  | skip + 1, _ :: rest => withoutControlsAfter skip rest
  | 0, glyph :: rest =>
    match controlLength (glyph :: rest) with
    | 0 => glyph :: withoutControlsAfter 0 rest
    | length + 1 => withoutControlsAfter length rest

/-- The text without its control sequences. -/
def withoutControls (text : Text) : Text :=
  withoutControlsAfter 0 text

end Text

end PatchShelf
