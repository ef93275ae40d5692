/-
Module: PatchShelf.Store
Purpose: What every store of shelved changes offers.
Main exports:
  ProgramCall, Activity, CreateRequest, ShelfStore
-/
import PatchShelf.Effect
import PatchShelf.FileTree.Basic
import PatchShelf.Log
import PatchShelf.Shelf

/-!
A store keeps shelved changes in a world of its own.  Its operations change that
world, and what they do on the way shows as activities: progress events, log
records and calls of programs.  The log message of a new shelf is a part of the
request for it.
-/

namespace PatchShelf

/-- A call of a program in a directory, with the files as it found them and as it
left them. -/
structure ProgramCall where
  program : Text
  directory : Text
  arguments : List Text
  found : FileTree
  left : FileTree
deriving Repr, DecidableEq, Inhabited

/-- What shows of the work of a store. -/
inductive Activity where
  | notified (event : Notification)
  | logged (record : LogRecord)
  | ran (call : ProgramCall)
deriving Repr, DecidableEq

/-- The activities of one progress event for each of some paths. -/
def Activity.progress (action : NotifyAction) (paths : List Text) : List Activity :=
  paths.map fun path => .notified ⟨action, path⟩

/-- What a new shelf is to be made of. -/
structure CreateRequest where
  name : Text
  targets : List Text
  depth : Depth
  changelists : List Text
  keepLocal : Bool
  dryRun : Bool
  logMessage : Option Text
deriving Repr, DecidableEq

/-- The operations of a store in worlds `σ`. -/
structure ShelfStore (σ : Type) where
  list : (root : Text) → Effect Activity σ Shelves
  create : (request : CreateRequest) → Effect Activity σ Unit
  delete : (name root : Text) → (dryRun : Bool) → Effect Activity σ Unit
  apply : (name root : Text) → (keepLocal dryRun : Bool) → Effect Activity σ Unit

namespace ShelfStore

/-- The failure of a store, with a message. -/
def failure (message : Text) : Failure :=
  .saying .store message

/-- The failure to find a shelf. -/
def shelfNotFound (name : Text) : Failure :=
  failure ("Shelved change '" ++ name ++ "' not found")

/-- The failure to make a shelf under a name that is taken. -/
def shelfExists (name : Text) : Failure :=
  failure ("Shelved change '" ++ name ++ "' already exists")

end ShelfStore

end PatchShelf
