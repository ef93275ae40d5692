/-
Module: PatchShelf.Proofs.Store.ProgramsAside
Purpose: A listing is the same on machines that differ in their programs.
Main exports:
  Machine.SameFiles, Machine.SeesFiles, Machine.SeesFiles.bind, WorkingCopyStore.seesFiles_list
-/
import PatchShelf.Proofs.Store.DryRun

/-!
Programs and the clock are no part of what a listing looks at.  Operations that look at the
files through paths alone give the same result and the same trail wherever the files and the
working directory are the same, and so do sequences of them.
-/

namespace PatchShelf

namespace Machine

variable {α β : Type}

/-- The machines have the same files and the same working directory. -/
structure SameFiles (one two : Machine) : Prop where
  tree : one.tree = two.tree
  directory : one.directory = two.directory

/-- On machines with the same files, the operation runs in the same way. -/
def SeesFiles (action : Operation α) : Prop :=
  ∀ one two, SameFiles one two →
    (action.run one).result = (action.run two).result ∧
      (action.run one).events = (action.run two).events ∧
      SameFiles (action.run one).world (action.run two).world

namespace SeesFiles

theorem pure (result : α) : SeesFiles (Pure.pure result : Operation α) :=
  fun _ _ same => ⟨rfl, rfl, same⟩

theorem fail (failure : Failure) : SeesFiles (Effect.fail failure : Operation α) :=
  fun _ _ same => ⟨rfl, rfl, same⟩

/-- What happens is no matter of the programs. -/
theorem emit (activity : Activity) : SeesFiles (Effect.emit activity : Operation Unit) :=
  fun _ _ same => ⟨rfl, rfl, same⟩

theorem ofAccess (access : Except Fault α) : SeesFiles (Effect.ofAccess access : Operation α) := by
  cases access with
  | error fault => exact fun _ _ same => ⟨rfl, rfl, same⟩
  | ok result => exact .pure result

/-- A look at the files does not look at the programs. -/
theorem access (query : FileTree → Location → Except Fault α) :
    SeesFiles (Machine.access query) := by
  intro one two same
  rw [run_access, run_access, same.tree, same.directory]
  exact ⟨rfl, rfl, same⟩

/-- A sequence sees no more than its parts do. -/
theorem bind {action : Operation α} {next : α → Operation β} (first : SeesFiles action)
    (second : ∀ result, SeesFiles (next result)) : SeesFiles (action >>= next) := by
  intro one two same
  obtain ⟨ended, trail, between⟩ := first one two same
  rw [Effect.run_bind, Effect.run_bind, ended, trail]
  cases (action.run two).result with
  | error reason => exact ⟨rfl, rfl, between⟩
  | ok result =>
      obtain ⟨last, more, after⟩ := second result _ _ between
      exact ⟨last, congrArg ((action.run two).events ++ ·) more, after⟩

end SeesFiles

end Machine

namespace WorkingCopyStore

open Machine (SeesFiles)

/-- Words for what is refused are found without the programs. -/
theorem seesFiles_explaining {α : Type} {task : Machine.Operation α} (lead : Text)
    (sees : SeesFiles task) : SeesFiles (explaining lead task) := by
  intro one two same
  obtain ⟨ended, trail, after⟩ := sees one two same
  rw [run_explaining, run_explaining, ended, trail]
  exact ⟨rfl, rfl, after⟩

/-- A root is found by the files alone. -/
theorem seesFiles_findRoot (path : Text) : SeesFiles (findRoot path) := by
  refine .bind (.access _) fun there => ?_
  cases there with
  | false => exact .fail _
  | true =>
      refine .bind (.access _) fun location => .bind (.access _) fun inside => ?_
      refine .bind (.access fun tree _ => nearestRoot tree _) fun root => ?_
      cases root with
      | none => exact .fail _
      | some found => exact .pure _

theorem seesFiles_readMessage (directory : Path) (name : Text) :
    SeesFiles (readMessage directory name) := by
  refine .bind (.access _) fun there => ?_
  cases there with
  | false => exact .pure _
  | true => exact .bind (.access _) fun _ => .pure _

/-- By induction on the names, the records are read from the files alone. -/
theorem seesFiles_readRecords (directory : Path) (names : List Text) (records : Shelves) :
    SeesFiles (readRecords directory names records) := by
  induction names generalizing records with
  | nil => exact .pure _
  | cons key rest ih =>
      rw [readRecords]
      split
      · exact .bind (.emit _) fun _ => ih _
      · refine .bind (.access _) fun status => .bind (.ofAccess _) fun modified => ?_
        refine .bind (seesFiles_readMessage _ _) fun message => ?_
        exact .bind (.ofAccess _) fun record => ih _

/-- A listing does not look at the programs. -/
theorem seesFiles_list (settings : WorkingCopyStore) (root : Text) :
    SeesFiles (settings.list root) := by
  refine .bind (seesFiles_findRoot root) fun found => .bind (.access _) fun there => ?_
  cases there with
  | false => exact .pure _
  | true =>
      refine seesFiles_explaining _ (.bind (.access _) fun names => ?_)
      exact seesFiles_readRecords _ _ _

end WorkingCopyStore

end PatchShelf
