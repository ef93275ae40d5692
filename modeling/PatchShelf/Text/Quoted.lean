/-
Module: PatchShelf.Text.Quoted
Purpose: The quoted form of a text in diagnostics.
Main exports:
  Text.quoteMark, Text.quoted
-/
import PatchShelf.Text.Printable

/-!
A quoted text stands between single quotes, or between double quotes when it
holds a single quote and no double quote.  The mark itself and the backslash
are escaped by a backslash; tab, line feed and carriage return have letters;
all else that is not printable is written by its code point, in two, four or
eight hexadecimal digits.
-/

namespace PatchShelf

namespace Text

/-- The quotation mark that a text is put between. -/
def quoteMark (text : Text) : Char :=
  if text.holds '\'' && !text.holds '"' then '"' else '\''

/-- The code point of a glyph behind a backslash. -/
def escapedCode (code : Nat) : Text :=
  if code < 0x100 then "\\x" ++ ofHex 2 code
  else if code < 0x10000 then "\\u" ++ ofHex 4 code
  else "\\U" ++ ofHex 8 code

/-- A glyph as it stands between quotation marks. -/
def quotedGlyph (mark : Char) (glyph : Glyph) : Text :=
  if glyph.isChar mark || glyph.isChar '\\' then [.char '\\', glyph]
  else if glyph.isChar '\t' then "\\t"
  else if glyph.isChar '\n' then "\\n"
  else if glyph.isChar '\r' then "\\r"
  else if glyph.isPrintable then [glyph]
  else escapedCode glyph.code

/-- The quoted form of a text. -/
def quoted (text : Text) : Text :=
  let mark := text.quoteMark
  [Glyph.char mark] ++ text.flatMap (quotedGlyph mark) ++ [Glyph.char mark]

end Text

end PatchShelf
