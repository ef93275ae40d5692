/-
Module: PatchShelf.Patch
Purpose: The paths that a patch names.
Main exports:
  Patch.paths
-/
import PatchShelf.Text.Blank
import PatchShelf.Text.Lines

/-!
A patch is a sequence of file sections, each headed by a line that begins with
`Index: ` and goes on with the path.
-/

namespace PatchShelf

namespace Patch

/-- The beginning of the line that heads a section. -/
def indexMark : Text := "Index: "

/-- The path that a line names, if it heads a section. -/
def pathOfLine? (line : Text) : Option Text :=
  if line.beginsWith indexMark then some (Text.strip (line.drop indexMark.length)) else none

/-- The paths that a patch names, in order. -/
def paths (patch : Text) : List Text :=
  patch.splitLines.filterMap pathOfLine?

end Patch

end PatchShelf
