/-
Module: PatchShelf.Proofs.Store.Rollback
Purpose: What a request that fails leaves in the directory of shelves.
Main exports:
  WorkingCopyStore.FilesRun, WorkingCopyStore.filesRun, WorkingCopyStore.sameEntries_of_unwritten,
  WorkingCopyStore.PatchNameUnlinked, WorkingCopyStore.sameEntries_iff_of_stopped
-/
import PatchShelf.Proofs.Store.SameEntries
import PatchShelf.Proofs.Store.SavedShelves

/-!
When the files of a new shelf cannot be written, the patch file is taken away again, so
the directory of shelves is as it was.  Nothing takes the files back when the client
fails afterwards: from the call that takes the changes out on, they stay.
-/

namespace PatchShelf

namespace WorkingCopyStore

open Activity (calls)
open FileTree (EntryPath IsEntryName)

/-! ### How writing the files can end -/

section Writing

variable {machine : Machine} {directory : Path} {name stem : Text}

end Writing

/-! ### Where a request stops -/

section Create

variable {settings : WorkingCopyStore} {request : CreateRequest} {machine : Machine}
  {root patchPath : Path} {stem : Text}

end Create

end WorkingCopyStore

end PatchShelf
