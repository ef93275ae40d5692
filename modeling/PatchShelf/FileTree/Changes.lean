/-
Module: PatchShelf.FileTree.Changes
Purpose: The differences between two file trees.
Main exports:
  Change, FileTree.changes
-/
import PatchShelf.FileTree.Basic

/-!
A change is an entry that only the later tree has, an entry that both have and
that differs, or an entry that only the earlier tree has.  A file counts as
changed when its content differs.  Changes come in the order of their paths as
byte strings.
-/

namespace PatchShelf

/-- One difference between two trees, at a location. -/
inductive Change where
  | added (location : Location) (entry : Entry)
  | altered (location : Location) (entry : Entry)
  | removed (location : Location)
deriving Repr, DecidableEq

/-- Where a change took place. -/
def Change.location : Change → Location
  | added place _ => place
  | altered place _ => place
  | removed place => place

/-- Does a location lie below a base? -/
def Location.isBelow (location base : Location) : Bool :=
  base.isSuffixOf location && decide (base.length < location.length)

/-- The path of a location below a base: the names with slashes between them. -/
def Location.pathBytes (location base : Location) : Bytes :=
  ((location.take (location.length - base.length)).reverse.intersperse [0x2F]).flatten

/-- Do two entries differ in kind, content or target? -/
def Entry.differs : Entry → Entry → Bool
  | .directory, .directory => false
  | .file before _, .file after _ => before ≠ after
  | .link before, .link after => before ≠ after
  | _, _ => true

namespace FileTree

/-- What leads from one tree to another below a base, by path; what lies elsewhere
does not count. -/
def changes (base : Location) (before after : FileTree) : List Change :=
  let kept := after.entries.pairs.filterMap fun pair =>
    match before.entries.get? pair.1 with
    | none => some (Change.added pair.1 pair.2)
    | some old => if old.differs pair.2 then some (Change.altered pair.1 pair.2) else none
  let gone := before.entries.pairs.filterMap fun pair =>
    match after.entries.get? pair.1 with
    | none => some (Change.removed pair.1)
    | some _ => none
  ((kept ++ gone).filter fun change => change.location.isBelow base).mergeSort fun left right =>
    decide (left.location.pathBytes base ≤ right.location.pathBytes base)

end FileTree

end PatchShelf
