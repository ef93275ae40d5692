/-
Module: PatchShelf.Shelf
Purpose: Shelved changes: their records, keys, depths and progress events.
Main exports:
  ShelfRecord, ShelfRecord.make, Shelf.keyOf, Shelf.nameOf, Depth,
  Notification, Shelves, Shelves.inOrder, Shelves.lastName?
-/
import PatchShelf.Dictionary
import PatchShelf.Instant
import PatchShelf.Text.Blank

/-!
A shelf is a patch under a name.  A store keeps records under keys, which are
the names of patch files: the shelf name with the suffix `.patch`.  Whatever
shows or picks shelves goes through one order, by the time of modification and
then by key.
-/

namespace PatchShelf

/-- What is known about one shelved change. -/
structure ShelfRecord where
  name : Text
  patchPath : Text
  modified : Instant
  size : Nat
  message : Text
  named : name.isBlank = false
deriving Repr, DecidableEq

namespace ShelfRecord

/-- A record, unless its name is blank or its size is negative. -/
def make (name patchPath : Text) (modified : Instant) (size : Int) (message : Text) :
    Except Fault ShelfRecord :=
  if named : name.isBlank = false then
    if size < 0 then .error (.negativeSize size)
    else .ok ⟨name, patchPath, modified, size.toNat, message, named⟩
  else .error .blankName

end ShelfRecord

namespace Shelf

/-- The end of the name of a patch file. -/
def patchSuffix : Text := ".patch"

/-- The end of the name of a message file. -/
def logSuffix : Text := ".log"

/-- The key under which a shelf is kept. -/
def keyOf (name : Text) : Text :=
  name ++ patchSuffix

/-- The shelf name that a key stands for. -/
def nameOf (key : Text) : Text :=
  if key.endsWith patchSuffix then key.take (key.length - patchSuffix.length) else key

theorem nameOf_keyOf (name : Text) : nameOf (keyOf name) = name := by
  have ends : Text.endsWith (keyOf name) patchSuffix = true := by
    simp [Text.endsWith, keyOf]
  rw [nameOf, if_pos ends]
  simp [keyOf]

end Shelf

/-- How far below a target an operation goes. -/
inductive Depth where
  | empty
  | files
  | immediates
  | infinity
deriving Repr, DecidableEq, Inhabited

namespace Depth

/-- The name of a depth. -/
def label : Depth → Text
  | empty => "empty"
  | files => "files"
  | immediates => "immediates"
  | infinity => "infinity"

/-- All depths. -/
def all : List Depth := [empty, files, immediates, infinity]

/-- The depth of a name. -/
def ofLabel? (name : Text) : Option Depth :=
  all.find? fun depth => depth.label == name

end Depth

/-- What happened to a path. -/
inductive NotifyAction where
  | shelved
  | reverted
  | patched
  | deleted
deriving Repr, DecidableEq, Inhabited

/-- The word for an action in progress lines. -/
def NotifyAction.label : NotifyAction → Text
  | shelved => "Shelved"
  | reverted => "Reverted"
  | patched => "Patched"
  | deleted => "Deleted"

/-- A progress event: something happened to a path. -/
structure Notification where
  action : NotifyAction
  path : Text
deriving Repr, DecidableEq, Inhabited

/-- The progress line of an event. -/
def Notification.line (event : Notification) : Text :=
  event.action.label ++ " '" ++ event.path ++ "'"

/-- The records of a store by key. -/
abbrev Shelves := Dictionary Text ShelfRecord

namespace Shelves

/-- Is the first entry older than the second, or as old with a key that is not
behind the other? -/
def notAfter (left right : Text × ShelfRecord) : Bool :=
  if left.2.modified.micros < right.2.modified.micros then true
  else if right.2.modified.micros < left.2.modified.micros then false
  else left.1.precedes right.1

/-- The entries, oldest first. -/
def inOrder (shelves : Shelves) : List (Text × ShelfRecord) :=
  shelves.pairs.mergeSort notAfter

/-- The shelf name of the last of some entries. -/
def lastName? (entries : List (Text × ShelfRecord)) : Option Text :=
  entries.getLast?.map fun entry => Shelf.nameOf entry.1

end Shelves

end PatchShelf
