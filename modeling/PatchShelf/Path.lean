/-
Module: PatchShelf.Path
Purpose: Paths as text: components, joining, parents and normal forms.
Main exports:
  Anchor, Path, Path.ofText, Path.toText, Path.join, Path.parent,
  Path.normalize, Path.absolute, Path.lastComponent
-/
import PatchShelf.Text.Basic

/-!
A path is its leading slashes and its components.  Reading a path drops empty
components and single dots; a component `..` stays, since what it leads to
depends on links.  Exactly two leading slashes are kept apart from one; three or
more count as one.  `normalize` resolves `..` by name alone.
-/

namespace PatchShelf

/-- Where a path starts. -/
inductive Anchor where
  | relative
  | root
  | doubleRoot
deriving Repr, DecidableEq, Inhabited

/-- The slashes that an anchor is written with. -/
def Anchor.toText : Anchor → Text
  | relative => ""
  | root => "/"
  | doubleRoot => "//"

/-- A path: its start and its components from there. -/
structure Path where
  anchor : Anchor
  parts : List Text
deriving Repr, DecidableEq, Inhabited

namespace Path

/-- The component that means the directory itself. -/
def here : Text := "."

/-- The component that means the parent directory. -/
def up : Text := ".."

/-- The anchor that a text begins with. -/
def anchorOf (text : Text) : Anchor :=
  match text with
  | .char '/' :: .char '/' :: .char '/' :: _ => .root
  | .char '/' :: .char '/' :: _ => .doubleRoot
  | .char '/' :: _ => .root
  | _ => .relative

/-- Read a path. -/
def ofText (text : Text) : Path :=
  ⟨anchorOf text, (text.splitOn '/').filter fun part => !(part.isEmpty || part == here)⟩

/-- Write a path; the relative path without components is a dot. -/
def toText (path : Path) : Text :=
  if path.anchor = .relative ∧ path.parts = [] then here
  else path.anchor.toText ++ Text.joinWith "/" path.parts

/-- Does the path start at the root? -/
def isAbsolute (path : Path) : Bool :=
  path.anchor ≠ .relative

/-- The path that `other` means when it is read in the directory `base`. -/
def join (base other : Path) : Path :=
  if other.isAbsolute then other else ⟨base.anchor, base.parts ++ other.parts⟩

instance : Div Path := ⟨join⟩

/-- The path without its last component. -/
def parent (path : Path) : Path :=
  ⟨path.anchor, path.parts.dropLast⟩

/-- Add a component to the reversed components of a normal form. -/
def pushPart (anchored : Bool) (reversed : List Text) (part : Text) : List Text :=
  if part = up then
    match reversed with
    | [] => if anchored then [] else [up]
    | last :: rest => if last = up then up :: reversed else rest
  else part :: reversed

/-- Resolve `..` by name: it takes the component before it away, and at the
root it vanishes. -/
def normalize (path : Path) : Path :=
  ⟨path.anchor, (path.parts.foldl (pushPart path.isAbsolute) []).reverse⟩

/-- The root directory. -/
def rootDirectory : Path := ⟨.root, []⟩

/-- The normal form of a path that is read at the root. -/
def absolute (path : Path) : Path :=
  (rootDirectory / path).normalize

/-- The last component of a path text as it stands, without trailing slashes. -/
def lastComponent (text : Text) : Text :=
  ((text.dropEndWhile (·.isChar '/')).splitOn '/').getLastD []

end Path

end PatchShelf
