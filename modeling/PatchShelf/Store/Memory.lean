/-
Module: PatchShelf.Store.Memory
Purpose: A store that keeps its shelves in memory.
Main exports:
  MemoryStore, MemoryStore.store
-/
import PatchShelf.Store

/-!
A memory store is a dictionary of records.  It can be told to fail, with a
message, at every operation.  Making a shelf under a name that is taken replaces
the shelf; applying a shelf leaves it where it is.
-/

namespace PatchShelf

/-- Shelves in memory, the failure to answer with, if any, and the time. -/
structure MemoryStore where
  shelves : Shelves
  broken : Option Text
  clock : Instant
deriving Repr, DecidableEq

namespace MemoryStore

/-- The size that is recorded for a shelf in memory. -/
def recordedSize : Int := 100

/-- The directory that the patch paths of shelves in memory name. -/
def recordedDirectory : Text := "/wc/.svn/shelves/"

/-- Stop if the store was told to fail. -/
def checkWorking : Effect Activity MemoryStore Unit := do
  let memory ← Effect.look
  match memory.broken with
  | some message => Effect.fail (ShelfStore.failure message)
  | none => pure ()

/-- All records. -/
def list (_root : Text) : Effect Activity MemoryStore Shelves := do
  checkWorking
  let memory ← Effect.look
  pure memory.shelves

/-- Keep a record for a new shelf. -/
def create (request : CreateRequest) : Effect Activity MemoryStore Unit := do
  checkWorking
  Effect.emitAll (Activity.progress .shelved request.targets)
  if request.dryRun then pure ()
  else
    let memory ← Effect.look
    let key := Shelf.keyOf request.name
    let record ← Effect.ofAccess
      (ShelfRecord.make request.name (recordedDirectory ++ key) memory.clock recordedSize
        (request.logMessage.getD []))
    Effect.change fun memory => { memory with shelves := memory.shelves.insert key record }

/-- Stop unless there is a shelf of this name. -/
def checkPresent (name : Text) : Effect Activity MemoryStore Unit := do
  let memory ← Effect.look
  if memory.shelves.contains (Shelf.keyOf name) then pure ()
  else Effect.fail (ShelfStore.shelfNotFound name)

/-- Forget a shelf. -/
def delete (name _root : Text) (dryRun : Bool) : Effect Activity MemoryStore Unit := do
  checkWorking
  checkPresent name
  Effect.emitAll (Activity.progress .deleted [Shelf.keyOf name])
  if dryRun then pure ()
  else Effect.change fun memory =>
    { memory with shelves := memory.shelves.erase (Shelf.keyOf name) }

/-- Report a shelf as applied. -/
def apply (name _root : Text) (_keepLocal _dryRun : Bool) : Effect Activity MemoryStore Unit := do
  checkWorking
  checkPresent name
  Effect.emitAll (Activity.progress .patched [Shelf.keyOf name])

/-- The operations of memory stores. -/
def store : ShelfStore MemoryStore :=
  ⟨list, create, delete, apply⟩

end MemoryStore

end PatchShelf
