/-
Module: PatchShelf.FileTree.Basic
Purpose: Trees of files, directories and symbolic links.
Main exports:
  FileName, Location, Entry, FileTree, FileTree.get?, FileTree.put,
  FileTree.remove, FileTree.removeBelow, FileTree.markLost, FileTree.names
-/
import PatchShelf.Dictionary
import PatchShelf.FileTime
import PatchShelf.Text.Utf8

/-!
A file tree says which entry stands at which location.  The name of an entry is
a byte string; a location lists the names from the entry up to the root, so the
parent of a location is its tail.  The root is a directory at all times.  What
a directory holds is read off the locations whose tail it is.

A directory can be taken away while someone works in it.  Its location is kept
with an empty name in its place, under which nothing is ever found.
-/

namespace PatchShelf

/-- The name of an entry in its directory. -/
abbrev FileName := Bytes

/-- Where an entry stands: the names from the entry up to the root. -/
abbrev Location := List FileName

/-- The name of a directory that was taken away while it was worked in.  It is empty,
so no path leads there. -/
def FileName.lost : FileName := []

/-- Was the directory at a location taken away? -/
def Location.isLost (location : Location) : Bool :=
  location.contains FileName.lost

/-- What stands at a location. -/
inductive Entry where
  | directory
  | file (content : Bytes) (modified : FileTime)
  | link (target : Bytes)
deriving Repr, DecidableEq, Inhabited

namespace Entry

/-- Is the entry a directory? -/
def isDirectory : Entry → Bool
  | directory => true
  | file _ _ => false
  | link _ => false

/-- Is the entry a regular file? -/
def isFile : Entry → Bool
  | directory => false
  | file _ _ => true
  | link _ => false

end Entry

/-- A tree of entries below the root. -/
structure FileTree where
  entries : Dictionary Location Entry
deriving Repr, DecidableEq

namespace FileTree

/-- The tree that holds nothing but the root. -/
def empty : FileTree := ⟨.empty⟩

instance : Inhabited FileTree := ⟨empty⟩

/-- What stands at a location. -/
def get? (tree : FileTree) (location : Location) : Option Entry :=
  if location = [] then some .directory else tree.entries.get? location

/-- Put an entry at a location. -/
def put (tree : FileTree) (location : Location) (entry : Entry) : FileTree :=
  if location = [] then tree else ⟨tree.entries.insert location entry⟩

/-- Take the entry at a location away. -/
def remove (tree : FileTree) (location : Location) : FileTree :=
  ⟨tree.entries.erase location⟩

/-- Take a location and everything below it away. -/
def removeBelow (tree : FileTree) (location : Location) : FileTree :=
  ⟨tree.entries.filter fun pair => !location.isSuffixOf pair.1⟩

/-- Make the directories that are missing on the way to a location. -/
def putDirectories (tree : FileTree) : Location → FileTree
  | [] => tree
  | name :: above =>
    let below := tree.putDirectories above
    if (below.get? (name :: above)).isSome then below else below.put (name :: above) .directory

/-- The location of a directory, with the ones on the way that are no longer there
marked as lost.  The marked ones stay lost when others take their names. -/
def markLost (tree : FileTree) : Location → Location
  | [] => []
  | name :: above =>
    let place := tree.markLost above
    if (tree.get? (name :: place)).any Entry.isDirectory then name :: place
    else FileName.lost :: place

/-- The names in a directory, the newest first. -/
def names (tree : FileTree) (directory : Location) : List FileName :=
  tree.entries.keys.reverse.filterMap fun location =>
    match location with
    | [] => none
    | name :: parent => if parent = directory then some name else none

@[simp] theorem get?_root (tree : FileTree) : tree.get? [] = some .directory := rfl

@[simp] theorem get?_put (tree : FileTree) (location other : Location) (entry : Entry)
    (below : location ≠ []) :
    (tree.put location entry).get? other =
      if other = location then some entry else tree.get? other := by
  by_cases root : other = []
  · subst root
    simp [get?, Ne.symm below]
  · simp [get?, put, below, root]

@[simp] theorem get?_remove (tree : FileTree) (location other : Location)
    (below : location ≠ []) :
    (tree.remove location).get? other =
      if other = location then none else tree.get? other := by
  by_cases root : other = []
  · subst root
    simp [get?, Ne.symm below]
  · simp [get?, remove, root]

end FileTree

end PatchShelf
