/-
Module: PatchShelf.Proofs.Store.CreatedShelf
Purpose: What the two files of a shelf hold once the request that makes it has ended.
Main exports:
  WorkingCopyStore.RevertsBeside, WorkingCopyStore.Creation.read_patch,
  WorkingCopyStore.Creation.read_log, WorkingCopyStore.Creation.read_patch_of_sameFile
-/
import PatchShelf.Proofs.Store.Fidelity

/-!
A request that makes a shelf goes one way through the store: the client gives a patch,
both files are written, and the changes are taken out.  The log message is written last, so
its path always leads to it.  The path of the patch leads to the patch, unless links lead
both paths to one file: then it leads to the log message.
-/

namespace PatchShelf

namespace WorkingCopyStore

open Activity (calls)

variable {settings : WorkingCopyStore} {request : CreateRequest} {machine : Machine}

/-- The client leaves a file tree behind, and when it reverts, both paths lead where they
led. -/
structure RevertsBeside (one two : Path) (call : ProgramCall) : Prop where
  sound : call.left.Sound
  spared : call.arguments.head? = some "revert" → SparesFiles one two call.found call.left

namespace Creation

variable {root patchPath logPath : Path} {written : Machine}
  {taken : Outcome Activity Machine Unit}

/-- A log message that is saved holds no stray bytes. -/
theorem hasRaw_of_logMessage
    (creation : Creation settings request machine root patchPath logPath written taken)
    {message : Text} (given : request.logMessage = some message) : message.hasRaw = false := by
  have encoded := creation.encoded
  rw [given, encodeMessage] at encoded
  cases valid : Utf8.encodeValid message with
  | ok bytes => exact Utf8.hasRaw_of_encodeValid valid
  | error refused =>
      rw [valid] at encoded
      cases encoded

/-- The client is called once more after the files are written: to revert. -/
theorem spares_of_mem_calls
    (creation : Creation settings request machine root patchPath logPath written taken)
    (aside : ∀ call ∈ calls ((settings.create request).run machine).events,
      RevertsBeside patchPath logPath call)
    {call : ProgramCall} (member : call ∈ calls taken.events) :
    SparesFiles patchPath logPath call.found call.left := by
  have whole : call ∈ calls ((settings.create request).run machine).events := by
    rw [creation.whole, Activity.calls_append]
    exact List.mem_append_right _ member
  refine (aside call whole).spared ?_
  cases creation.takes with
  | kept keeps => simp at member
  | uncalled takes closed => simp at member
  | failed takes called bad =>
      obtain rfl : call = _ := by simpa using member
      rfl
  | reverted takes called good =>
      obtain rfl : call = _ := by simpa using member
      rfl

/-- Taking the changes out moves neither file. -/
theorem locate_same
    (creation : Creation settings request machine root patchPath logPath written taken)
    (aside : ∀ call ∈ calls ((settings.create request).run machine).events,
      RevertsBeside patchPath logPath call) :
    taken.world.tree.locate [] .target patchPath = written.tree.locate [] .target patchPath ∧
      taken.world.tree.locate [] .target logPath = written.tree.locate [] .target logPath :=
  sparesFiles_of_takeOutRun creation.takes creation.ended fun _ =>
    creation.spares_of_mem_calls aside

theorem sound_afterCall
    (creation : Creation settings request machine root patchPath logPath written taken)
    (aside : ∀ call ∈ calls ((settings.create request).run machine).events,
      RevertsBeside patchPath logPath call) :
    (machine.afterCall settings.program).tree.Sound := by
  refine (aside (settings.clientCall machine root "diff" (selection request)) ?_).sound
  rw [creation.whole]
  simp

variable (creation : Creation settings request machine root patchPath logPath written taken)
  (sound : machine.Sound)
  (aside : ∀ call ∈ calls ((settings.create request).run machine).events,
    RevertsBeside patchPath logPath call)

include creation sound

theorem isAbsolute : (settings.shelvesPath root).isAbsolute = true ∧
    patchPath.isAbsolute = true ∧ logPath.isAbsolute = true := by
  obtain ⟨first, rest, -, found⟩ := creation.prepared.inside
  obtain ⟨location, rfl, -⟩ := isRoot_of_findRoot sound found
  exact ⟨isAbsolute_shelvesPath settings location,
    isAbsolute_of_shelfFile isSuffix_patch creation.prepared.named,
    isAbsolute_of_shelfFile isSuffix_log creation.logNamed⟩

include aside

/-- The path of the patch leads to the patch, unless the log message went to the same
file. -/
theorem locate_patch (apart : request.logMessage.isSome = true →
      ¬ SameFile ((settings.create request).run machine).world.tree patchPath logPath) :
    ∃ location, ((settings.create request).run machine).world.tree.locate [] .target patchPath =
      .ok (.found location (.file (Utf8.encode (settings.captured machine)) machine.clock)) := by
  obtain ⟨rooted, patchRooted, logRooted⟩ := creation.isAbsolute sound
  have kept := creation.locate_same aside
  rw [creation.whole] at apart ⊢
  obtain ⟨location, located⟩ := locate_patch_of_writeFiles
    (creation.sound_afterCall aside) rooted patchRooted logRooted creation.writes
    fun given same => apart (by simpa using given) (by simpa only [SameFile, kept.1, kept.2])
  exact ⟨location, kept.1.trans located⟩

/-- The path of the log message leads to it. -/
theorem locate_log {message : Text} (given : request.logMessage = some message) :
    ∃ location, ((settings.create request).run machine).world.tree.locate [] .target logPath =
      .ok (.found location (.file (Utf8.encode message) machine.clock)) := by
  obtain ⟨rooted, patchRooted, logRooted⟩ := creation.isAbsolute sound
  have writes := creation.writes
  rw [given] at writes
  obtain ⟨location, located⟩ := locate_log_of_writeFiles
    (creation.sound_afterCall aside) rooted patchRooted logRooted writes
  rw [creation.whole]
  exact ⟨location, (creation.locate_same aside).2.trans located⟩

theorem read_patch (apart : request.logMessage.isSome = true →
      ¬ SameFile ((settings.create request).run machine).world.tree patchPath logPath) :
    ((settings.create request).run machine).world.tree.read [] patchPath =
      .ok (Utf8.encode (settings.captured machine)) := by
  obtain ⟨location, located⟩ := creation.locate_patch sound aside apart
  exact FileTree.read_of_locate [] (creation.isAbsolute sound).2.1 located

theorem read_log {message : Text} (given : request.logMessage = some message) :
    ((settings.create request).run machine).world.tree.read [] logPath =
      .ok (Utf8.encode message) := by
  obtain ⟨location, located⟩ := creation.locate_log sound aside given
  exact FileTree.read_of_locate [] (creation.isAbsolute sound).2.2 located

/-- When both paths lead to one file, the log message is what is left of the shelf. -/
theorem read_patch_of_sameFile {message : Text} (given : request.logMessage = some message)
    (same : SameFile ((settings.create request).run machine).world.tree patchPath logPath) :
    ((settings.create request).run machine).world.tree.read [] patchPath =
      .ok (Utf8.encode message) := by
  obtain ⟨location, located⟩ := creation.locate_log sound aside given
  obtain ⟨shared, entry, first, second⟩ := same
  rw [located] at second
  obtain ⟨rfl, rfl⟩ := Spot.found.inj (Except.ok.inj second)
  exact FileTree.read_of_locate [] (creation.isAbsolute sound).2.1 first

end Creation

end WorkingCopyStore

end PatchShelf
