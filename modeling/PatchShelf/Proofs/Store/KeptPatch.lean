/-
Module: PatchShelf.Proofs.Store.KeptPatch
Purpose: The patch file of a new shelf is there when the request has ended.
Main exports:
  WorkingCopyStore.LeavesPath, WorkingCopyStore.KeptPatch,
  WorkingCopyStore.keptPatch_of_created
-/
import PatchShelf.Proofs.Store.Saved

/-!
Once a request succeeds, the path of its patch file leads to a file that was written just
now.  It may lead there through links, and the log message may even have gone to the same
file: none of this takes the file away.
-/

namespace PatchShelf

namespace WorkingCopyStore

open Activity (calls)

/-- Where the path led before the call, it leads after it. -/
structure LeavesPath (path : Path) (call : ProgramCall) : Prop where
  sound : call.left.Sound
  same : call.left.locate [] .target path = call.found.locate [] .target path

/-- The path leads to a file of the moment, and the client can be called. -/
structure KeptPatch (settings : WorkingCopyStore) (path : Path) (moment : FileTime)
    (machine : Machine) : Prop where
  sound : machine.Sound
  file : ∃ location content,
    machine.tree.locate [] .target path = .ok (.found location (.file content moment))
  callable : machine.Callable settings.program

variable {settings : WorkingCopyStore} {request : CreateRequest} {machine : Machine}
  {root directory patchPath logPath : Path}

theorem keptPatch_of_writeBoth (sound : machine.Sound) (absolute : patchPath.isAbsolute = true)
    (logAbsolute : logPath.isAbsolute = true)
    (callable : machine.Callable settings.program)
    {patch : Bytes} {message : Option Bytes}
    (written : ((writeBoth patchPath logPath patch message).run machine).result = .ok ()) :
    KeptPatch settings patchPath machine.clock
      ((writeBoth patchPath logPath patch message).run machine).world := by
  obtain ⟨_, first, later, whole⟩ := Effect.exists_of_run_bind_ok written
  obtain ⟨tree, wrote, ran⟩ := Machine.exists_of_run_writeFile first
  obtain ⟨location, located, noWay, same⟩ :=
    FileTree.exists_of_write sound.tree.grounded absolute wrote
  have valid := sound.tree.write absolute wrote
  have keeps : FileTree.KeepsWays machine.tree tree :=
    same ▸ FileTree.keepsWays_put (.file patch machine.clock) noWay
  rw [writeBoth.eq_def, whole]
  rw [ran] at later ⊢
  cases message with
  | none =>
      exact ⟨sound.withTree valid keeps, ⟨location, patch, located⟩, callable.withTree _⟩
  | some content =>
      obtain ⟨last, rewrote, ranLast⟩ := Machine.exists_of_run_writeFile later
      obtain ⟨kept, time, still, either⟩ := FileTree.exists_locate_of_write valid.grounded
        absolute logAbsolute located rewrote
      -- Both files are written at one time, so it does not matter whether they are one.
      obtain rfl : time = machine.clock := either.elim id id
      obtain ⟨spot, -, logNoWay, logged⟩ :=
        FileTree.exists_of_write valid.grounded logAbsolute rewrote
      have logKeeps : FileTree.KeepsWays tree last :=
        logged ▸ FileTree.keepsWays_put (.file content machine.clock) logNoWay
      simp only [ranLast]
      exact ⟨sound.withTree (valid.write logAbsolute rewrote) (keeps.trans logKeeps),
        ⟨location, kept, still⟩, (callable.withTree _).withTree _⟩

theorem keptPatch_of_writeFiles (sound : machine.Sound) (above : directory.isAbsolute = true)
    (absolute : patchPath.isAbsolute = true) (logAbsolute : logPath.isAbsolute = true)
    (callable : machine.Callable settings.program)
    {patch : Bytes} {message : Option Bytes} {after : Machine}
    (writes : (writeFiles directory patchPath logPath patch message).run machine =
      ⟨.ok (), after, []⟩) : KeptPatch settings patchPath machine.clock after := by
  obtain ⟨base, valid, keeps, later, rfl⟩ :=
    exists_writeBoth_of_writeFiles sound.tree above writes
  exact keptPatch_of_writeBoth (sound.withTree valid keeps) absolute logAbsolute
    (callable.withTree _) later

/-- The client leaves the patch file where it is, so this is still there when the changes are
taken out. -/
theorem KeptPatch.takeOut {patch : Text} {moment : FileTime}
    {outcome : Outcome Activity Machine Unit}
    (kept : KeptPatch settings patchPath moment machine)
    (takes : TakeOutRun settings root request patch machine outcome)
    (spares : ∀ call ∈ calls outcome.events, LeavesPath patchPath call) :
    KeptPatch settings patchPath moment outcome.world := by
  have later (leaves : LeavesPath patchPath
      (settings.clientCall machine root "revert" (selection request))) :
      KeptPatch settings patchPath moment (machine.afterCall settings.program) := by
    obtain ⟨location, content, located⟩ := kept.file
    exact ⟨.afterCall _ _ leaves.sound, ⟨location, content, leaves.same.trans located⟩,
      kept.callable.afterCall⟩
  cases takes with
  | kept keeps => exact kept
  | uncalled takes closed => exact kept
  | failed takes called bad => exact later (spares _ (by simp))
  | reverted takes called good => exact later (spares _ (by simp))

end WorkingCopyStore

end PatchShelf
