/-
Module: PatchShelf.Proofs.Store.Fidelity
Purpose: What a patch file holds of the bytes that the client gave.
Main exports:
  WorkingCopyStore.encode_outputText, WorkingCopyStore.SameFile,
  WorkingCopyStore.ShelfPaths, WorkingCopyStore.stored_patch_eq
-/
import PatchShelf.Proofs.Store.Saved

/-!
The output of the client becomes text and is written as bytes again.  Stray bytes come
through this unchanged; carriage returns do not, since the text has line feeds only.
So a patch file holds the bytes of the output exactly if these have no carriage return.
-/

namespace PatchShelf

namespace WorkingCopyStore

open Activity (calls)

/-- Output that is taken as text and written again has its line ends made uniform, and
is the same otherwise. -/
theorem encode_outputText (output : Bytes) :
    Utf8.encode (outputText output) = Bytes.uniformLines output := by
  rw [outputText, Utf8.encode_uniformLines, Utf8.encode_decodeEscaped]

/-- Two paths lead to one file. -/
def SameFile (tree : FileTree) (one two : Path) : Prop :=
  ∃ location entry, tree.locate [] .target one = .ok (.found location entry) ∧
    tree.locate [] .target two = .ok (.found location entry)

/-- What both paths lead to is the same in two trees. -/
structure SparesFiles (one two : Path) (old new : FileTree) : Prop where
  sound : new.Sound
  first : new.locate [] .target one = old.locate [] .target one
  second : new.locate [] .target two = old.locate [] .target two

/-- The paths of the two files of the shelf that a request is about. -/
def ShelfPaths (settings : WorkingCopyStore) (request : CreateRequest) (machine : Machine)
    (patchPath logPath : Path) : Prop :=
  ∃ directory, settings.directory? request machine = some directory ∧
    shelfFile directory request.name Shelf.patchSuffix = .ok patchPath ∧
    shelfFile directory request.name Shelf.logSuffix = .ok logPath

/-! ### Writing both files, links or not -/

section Writing

variable {machine : Machine} {patchPath logPath : Path}

/-- A file that is put elsewhere leaves what a path leads to in its place. -/
theorem locate_of_put_of_ne {tree : FileTree} (sound : tree.Sound) {path : Path}
    {location second : Location} {entry : Entry} (other : Entry) (rooted : path.isAbsolute = true)
    (located : tree.locate [] .target path = .ok (.found location entry))
    (noWay : tree.NoWay second) (apart : location ≠ second) :
    (tree.put second other).locate [] .target path = .ok (.found location entry) := by
  refine FileTree.locate_of_keepsWays (FileTree.keepsWays_put other noWay) rooted located (.inr ?_)
  rw [FileTree.get?_put _ _ _ _ (FileTree.ne_root_of_noWay noWay), if_neg apart]
  exact FileTree.holds_of_locate_absolute sound.grounded rooted located

/-- A second file that is written leaves the first one in its place, unless the paths
of both lead to it. -/
theorem locate_first_of_write {old new : FileTree} (sound : old.Sound) {one two : Path}
    {location base : Location} {content other : Bytes} {moment modified : FileTime}
    (rooted : one.isAbsolute = true) (otherRooted : two.isAbsolute = true)
    (located : old.locate [] .target one = .ok (.found location (.file content modified)))
    (written : old.write base moment two other = .ok new) (apart : ¬ SameFile new one two) :
    new.locate [] .target one = .ok (.found location (.file content modified)) := by
  obtain ⟨second, reached, noWay, rfl⟩ :=
    FileTree.exists_of_write sound.grounded otherRooted written
  by_cases same : location = second
  · -- Both paths lead to the file that was written last.
    have keeps := FileTree.keepsWays_put (.file other moment) noWay
    have stands : (old.put second (.file other moment)).get? location =
        some (.file other moment) := by
      rw [FileTree.get?_put _ _ _ _ (FileTree.ne_root_of_noWay noWay), if_pos same]
    have there := FileTree.locate_target_of_spot keeps rooted located rfl stands rfl
    rw [Spot.location, same] at there
    exact absurd ⟨second, _, there, reached⟩ apart
  · exact locate_of_put_of_ne sound _ rooted located noWay same

/-- After both files are written the path of the patch leads to the patch, unless the
log message went to the same file. -/
theorem locate_patch_of_writeBoth {patch : Bytes} {message : Option Bytes}
    (sound : machine.tree.Sound) (patchRooted : patchPath.isAbsolute = true)
    (logRooted : logPath.isAbsolute = true)
    (succeeded : ((writeBoth patchPath logPath patch message).run machine).result = .ok ())
    (apart : message.isSome = true →
      ¬ SameFile ((writeBoth patchPath logPath patch message).run machine).world.tree
        patchPath logPath) :
    ∃ location, ((writeBoth patchPath logPath patch message).run machine).world.tree.locate []
      .target patchPath = .ok (.found location (.file patch machine.clock)) := by
  rw [writeBoth.eq_def] at succeeded apart ⊢
  obtain ⟨done, first, later, whole⟩ := Effect.exists_of_run_bind_ok succeeded
  obtain ⟨tree, written, ran⟩ := Machine.exists_of_run_writeFile first
  have soundBetween := sound.write patchRooted written
  obtain ⟨location, located, -, -⟩ := FileTree.exists_of_write sound.grounded patchRooted written
  rw [whole] at apart ⊢
  rw [ran] at later apart ⊢
  cases message with
  | none => exact ⟨location, located⟩
  | some content =>
      obtain ⟨last, rewritten, ranLast⟩ := Machine.exists_of_run_writeFile later
      simp only [ranLast] at apart ⊢
      exact ⟨location, locate_first_of_write soundBetween patchRooted logRooted located rewritten
        (apart rfl)⟩

theorem locate_patch_of_writeFiles {directory : Path} {patch : Bytes} {message : Option Bytes}
    {after : Machine} (sound : machine.tree.Sound) (rooted : directory.isAbsolute = true)
    (patchRooted : patchPath.isAbsolute = true) (logRooted : logPath.isAbsolute = true)
    (writes : (writeFiles directory patchPath logPath patch message).run machine =
      ⟨.ok (), after, []⟩)
    (apart : message.isSome = true → ¬ SameFile after.tree patchPath logPath) :
    ∃ location, after.tree.locate [] .target patchPath =
      .ok (.found location (.file patch machine.clock)) := by
  obtain ⟨base, valid, -, later, rfl⟩ := exists_writeBoth_of_writeFiles sound rooted writes
  exact locate_patch_of_writeBoth valid patchRooted logRooted later apart

/-- The log message is what its path leads to after both files are written. -/
theorem locate_log_of_writeFiles {directory : Path} {patch content : Bytes}
    {after : Machine} (sound : machine.tree.Sound) (rooted : directory.isAbsolute = true)
    (patchRooted : patchPath.isAbsolute = true) (logRooted : logPath.isAbsolute = true)
    (writes : (writeFiles directory patchPath logPath patch (some content)).run machine =
      ⟨.ok (), after, []⟩) :
    ∃ location, after.tree.locate [] .target logPath =
      .ok (.found location (.file content machine.clock)) := by
  obtain ⟨base, valid, -, later, rfl⟩ := exists_writeBoth_of_writeFiles sound rooted writes
  rw [writeBoth.eq_def] at later ⊢
  obtain ⟨done, first, last, whole⟩ := Effect.exists_of_run_bind_ok later
  obtain ⟨tree, wrote, ran⟩ := Machine.exists_of_run_writeFile first
  rw [whole]
  rw [ran] at last ⊢
  obtain ⟨final, rewrote, ranLast⟩ := Machine.exists_of_run_writeFile last
  obtain ⟨location, located, -, -⟩ := FileTree.exists_of_write
    (valid.write patchRooted wrote).grounded logRooted rewrote
  simp only [ranLast]
  exact ⟨location, located⟩

end Writing

/-- The paths of both files of a shelf are absolute. -/
theorem isAbsolute_of_shelfFile {location : Location} {settings : WorkingCopyStore}
    {name suffix : Text} {path : Path} (ends : IsSuffix suffix)
    (named : shelfFile (settings.shelvesPath (Location.toPath location)) name suffix = .ok path) :
    path.isAbsolute = true := by
  obtain ⟨stem, -, rfl⟩ := exists_of_shelfFile ends named
  exact isAbsolute_shelvesPath settings location

/-- Taking the changes out with success leaves what a client that spares them leaves. -/
theorem sparesFiles_of_takeOutRun {settings : WorkingCopyStore} {root one two : Path}
    {request : CreateRequest} {patch : Text} {machine : Machine}
    {outcome : Outcome Activity Machine Unit}
    (run : TakeOutRun settings root request patch machine outcome)
    (ended : outcome.result = .ok ())
    (spares : ∀ call ∈ calls outcome.events, SparesFiles one two call.found call.left) :
    outcome.world.tree.locate [] .target one = machine.tree.locate [] .target one ∧
      outcome.world.tree.locate [] .target two = machine.tree.locate [] .target two := by
  cases run with
  | kept keeps => exact ⟨rfl, rfl⟩
  | uncalled takes closed => cases ended
  | failed takes called bad => cases ended
  | reverted takes called good =>
      have spared := spares (settings.clientCall machine root "revert" (selection request))
        (by simp)
      exact ⟨spared.first, spared.second⟩

/-- The patch file of a shelf that was made holds what the client gave, with line feeds
for all line ends; so it holds the very bytes exactly if these have no carriage
return. -/
theorem stored_patch_eq (settings : WorkingCopyStore) (request : CreateRequest)
    (machine : Machine) (sound : machine.Sound)
    (spares : ∀ patchPath logPath, ShelfPaths settings request machine patchPath logPath →
      ∀ call ∈ calls ((settings.create request).run machine).events,
        SparesFiles patchPath logPath call.found call.left)
    (apart : ∀ patchPath logPath, ShelfPaths settings request machine patchPath logPath →
      request.logMessage.isSome = true →
        ¬ SameFile ((settings.create request).run machine).world.tree patchPath logPath)
    (wet : request.dryRun = false)
    (ended : ((settings.create request).run machine).result = .ok ()) :
    ∃ patchPath logPath, ShelfPaths settings request machine patchPath logPath ∧
      ((settings.create request).run machine).world.tree.read [] patchPath =
        .ok (Bytes.uniformLines (settings.reply machine).output) ∧
      (((settings.create request).run machine).world.tree.read [] patchPath =
          .ok (settings.reply machine).output ↔
        Bytes.carriageReturn ∉ (settings.reply machine).output) := by
  obtain ⟨root, patchPath, logPath, written, taken, creation⟩ := exists_creation wet ended
  obtain ⟨first, rest, targets, found⟩ := creation.prepared.inside
  obtain ⟨location, rfl, -⟩ := isRoot_of_findRoot sound found
  have patchNamed := creation.prepared.named
  have paths : ShelfPaths settings request machine patchPath logPath :=
    ⟨_, directory?_of_prepared creation.prepared, patchNamed, creation.logNamed⟩
  rw [creation.whole] at spares apart ⊢
  have spared := spares _ _ paths
  have diff : SparesFiles patchPath logPath machine.tree
      (machine.afterCall settings.program).tree :=
    spared (settings.clientCall machine (Location.toPath location) "diff" (selection request))
      (by simp)
  -- Taking the changes out moves neither file, so the paths lead where they were written.
  have kept := sparesFiles_of_takeOutRun creation.takes creation.ended fun call member =>
    spared call (by simp [member])
  have patchRooted := isAbsolute_of_shelfFile isSuffix_patch patchNamed
  obtain ⟨place, located⟩ := locate_patch_of_writeFiles diff.sound
    (isAbsolute_shelvesPath settings location) patchRooted
    (isAbsolute_of_shelfFile isSuffix_log creation.logNamed) creation.writes fun given => by
      refine fun same => apart _ _ paths ?_ ?_
      · simpa using given
      · simpa only [SameFile, kept.1, kept.2] using same
  rw [← kept.1] at located
  have reads := FileTree.read_of_locate [] patchRooted located
  rw [captured, encode_outputText] at reads
  refine ⟨_, _, paths, reads, ?_⟩
  rw [reads, ← Bytes.uniformLines_eq_self_iff]
  exact ⟨Except.ok.inj, congrArg Except.ok⟩

theorem stored_patch_of_two_line_ends :
    ∃ patchPath logPath,
      ShelfPaths plainSettings (plainRequest none)
        (plainMachine (Utf8.encode "Index: a\r\n+x\r\n")) patchPath logPath ∧
      ((plainSettings.create (plainRequest none)).run
        (plainMachine (Utf8.encode "Index: a\r\n+x\r\n"))).world.tree.read [] patchPath =
          .ok (Utf8.encode "Index: a\n+x\n") ∧
      ((plainSettings.create (plainRequest none)).run
        (plainMachine (Utf8.encode "Index: a\r\n+x\r\n"))).world.tree.read [] patchPath ≠
          .ok (Utf8.encode "Index: a\r\n+x\r\n") := by
  have still : ∀ call ∈ calls ((plainSettings.create (plainRequest none)).run
      (plainMachine (Utf8.encode "Index: a\r\n+x\r\n"))).events,
      call.left = call.found ∧ call.found.Sound := by decide +kernel
  obtain ⟨patchPath, logPath, paths, reads, same⟩ := stored_patch_eq plainSettings
    (plainRequest none) (plainMachine (Utf8.encode "Index: a\r\n+x\r\n"))
    ⟨by decide +kernel, fun _ => rfl⟩
    (fun _ _ _ call member => by
      obtain ⟨alike, sound⟩ := still call member
      rw [alike]
      exact ⟨sound, rfl, rfl⟩)
    nofun rfl rfl
  refine ⟨patchPath, logPath, paths, reads, fun whole => same.1 whole ?_⟩
  decide

end WorkingCopyStore

end PatchShelf
