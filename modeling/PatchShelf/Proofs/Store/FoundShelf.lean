/-
Module: PatchShelf.Proofs.Store.FoundShelf
Purpose: From where a shelf is listed and applied.
Main exports:
  WorkingCopyStore.Finds, WorkingCopyStore.mem_calls_apply_iff,
  WorkingCopyStore.KeptPatch.exists_patch_call_iff, WorkingCopyStore.KeptPatch.exists_presented
-/
import PatchShelf.Proofs.Store.KeptPatch
import PatchShelf.Proofs.Store.LegibleRecords

/-!
A shelf is looked for in the directory of shelves of the working copy that some path lies
in.  The client is called to apply its patch file exactly if that is the directory in which
the file stands; so are the records listed, as long as they can all be read.
-/

namespace PatchShelf

namespace WorkingCopyStore

open Activity (calls)

/-- From the path, the store looks for shelves in this directory. -/
def Finds (settings : WorkingCopyStore) (machine : Machine) (path : Text) (directory : Path) :
    Prop :=
  ∃ root, ((findRoot path).run machine).result = .ok root ∧ settings.shelvesPath root = directory

variable {settings : WorkingCopyStore} {machine : Machine} {name root : Text}
  {directory path : Path} {keepLocal dryRun : Bool}

/-! ### Calls of an application -/

theorem makesNoCall_delete (settings : WorkingCopyStore) (name root : Text) (dryRun : Bool) :
    Machine.MakesNoCall (settings.delete name root dryRun) := by
  refine .bind (.ofSilent (.ofReads (reads_findRoot root))) fun found => ?_
  refine .bind (.ofSilent (.ofReads (reads_existingPatch _ _))) fun path => ?_
  have reported : Machine.MakesNoCall
      (Effect.emitAll (Activity.progress .deleted [path.toText]) : Machine.Operation Unit) :=
    .emitAll (Activity.calls_progress _ _)
  cases dryRun with
  | true => exact reported
  | false =>
      refine .bind (.ofSilent (silent_explainingAfter (.ofReads (.pure ())) ?_)) fun _ => reported
      refine .bind (Machine.silent_alter _) fun _ => .bind (.ofReads (.ofChecked _)) fun _ => ?_
      exact Machine.silent_unlinkIfPresent _

theorem makesNoCall_finishApply (settings : WorkingCopyStore) (found path : Path) (name : Text)
    (kept : Bool) : Machine.MakesNoCall (settings.finishApply found path name kept) := by
  refine .bind (.ofSilent (silent_explainingAfter (.ofReads (.pure ())) ?_)) fun content => ?_
  · exact .ofReads (Machine.reads_access _)
  · refine .bind (.emitAll (Activity.calls_progress _ _)) fun _ => ?_
    cases kept with
    | true => exact .ofSilent (.ofReads (.pure ()))
    | false => exact makesNoCall_delete settings name _ _

/-- An application calls the client once, with the patch file that was found, if it finds one
and the client can be called. -/
theorem mem_calls_apply_iff {call : ProgramCall} :
    call ∈ calls ((settings.apply name root keepLocal dryRun).run machine).events ↔
      ∃ found path, ((findRoot root).run machine).result = .ok found ∧
        ((existingPatch (settings.shelvesPath found) name).run machine).result = .ok path ∧
        settings.CanRun machine found "patch" (patchArguments path dryRun) ∧
        call = settings.clientCall machine found "patch" (patchArguments path dryRun) := by
  rw [apply, (reads_findRoot root).run_bind]
  cases rooted : ((findRoot root).run machine).result with
  | error reason => simp
  | ok found =>
      simp only
      rw [(reads_existingPatch _ _).run_bind]
      cases looked : ((existingPatch (settings.shelvesPath found) name).run machine).result with
      | error reason => simp [looked]
      | ok path =>
          simp only
          rw [Effect.run_bind]
          by_cases called : settings.CanRun machine found "patch" (patchArguments path dryRun)
          · rw [run_runClient called]
            cases answered : settings.taken "patch" (settings.reply machine) with
            | error reason => simp [looked, called]
            | ok output =>
                simp only
                rw [Activity.calls_append, (makesNoCall_finishApply _ _ _ _ _).calls_run]
                simp [looked, called]
          · obtain ⟨reason, unmade⟩ := exists_run_runClient called
            rw [unmade]
            simp [looked, called]

/-! ### Applying the shelf -/

theorem existingPatch_of_isFile
    (named : shelfFile directory name Shelf.patchSuffix = .ok path)
    (isFile : machine.tree.isFile machine.directory path = .ok true) :
    ((existingPatch directory name).run machine).result = .ok path := by
  rw [existingPatch, (Effect.Reads.ofChecked _).run_bind, Effect.run_ofChecked, named]
  simp only [mapError_ok]
  rw [(Machine.reads_access _).run_bind, Machine.run_access, isFile]
  rfl

/-- A client that can be called can be called to apply a file. -/
theorem canRun_patch {found : Path} (sound : machine.Sound)
    (callable : machine.Callable settings.program)
    (isFile : machine.tree.isFile machine.directory path = .ok true)
    (rooted : ((findRoot root).run machine).result = .ok found) :
    settings.CanRun machine found "patch" (patchArguments path dryRun) := by
  obtain ⟨location, rfl, isRoot⟩ := isRoot_of_findRoot sound rooted
  obtain ⟨place, arguments, open_⟩ := callable
  have clean := open_.noNull
  have patchClean := (FileTree.fits_of_isFile isFile).noNull
  refine open_.elsewhere ?_ (isLost_ofPath_toPath sound.tree (by simp [isRoot.stands]))
  rw [List.any_cons, Bool.or_eq_false_iff] at clean
  have own : Text.holds "patch" '\x00' = false := by decide
  have flag : Text.holds "--dry-run" '\x00' = false := by decide
  rw [patchArguments]
  cases dryRun with
  | false => simp [clean.1, own, patchClean]
  | true => simp [clean.1, own, flag, patchClean]

namespace KeptPatch

variable {moment : FileTime}

theorem isFile (kept : KeptPatch settings path moment machine) (absolute : path.isAbsolute = true) :
    machine.tree.isFile machine.directory path = .ok true := by
  obtain ⟨location, content, located⟩ := kept.file
  rw [FileTree.isFile, FileTree.probe,
    FileTree.locate_base machine.tree machine.directory .target absolute, located]
  rfl

/-- The patch file stands in the directory under its name, as a file or as a link. -/
theorem exists_entry {part : Text} (kept : KeptPatch settings (directory.child part) moment machine)
    (absolute : directory.isAbsolute = true) (isName : FileTree.IsEntryName part) :
    FileTree.EntryPath directory part ∧ ∃ place, machine.tree.Leads directory place ∧
      machine.tree.get? (Utf8.encode part :: place) ≠ none := by
  obtain ⟨location, content, located⟩ := kept.file
  obtain ⟨place, leads⟩ :=
    FileTree.exists_leads_of_locate_child absolute isName located
  obtain ⟨entry, -, there⟩ := FileTree.deadEnd_of_isFile absolute isName leads
    (kept.isFile absolute)
  exact ⟨entry, place, leads, there⟩

/-- If a patch file stands there under an accepted name, a shelf can be kept there under it. -/
theorem shelfName
    (kept : KeptPatch settings (directory.child (name ++ Shelf.patchSuffix)) moment machine)
    (absolute : directory.isAbsolute = true)
    (accepted : Arguments.checkShelfName name = .ok name) (clean : name.hasRaw = false) :
    ShelfName directory name := by
  have whole := whole_of_checkShelfName accepted
  obtain ⟨entry, -⟩ := kept.exists_entry absolute (isSuffix_patch.isEntryName whole)
  exact ⟨⟨accepted, Utf8.decodeEscaped_encode clean, entry.short⟩, entry.fits⟩

theorem existingPatch (shelf : ShelfName directory name)
    (kept : KeptPatch settings (directory.child (name ++ Shelf.patchSuffix)) moment machine)
    (absolute : directory.isAbsolute = true) :
    ((existingPatch directory name).run machine).result =
      .ok (directory.child (name ++ Shelf.patchSuffix)) :=
  existingPatch_of_isFile (shelf.shelfFile _ isSuffix_patch) (kept.isFile absolute)

/-- The client can be called to apply the patch file in any working copy. -/
theorem canRun {found : Path} (kept : KeptPatch settings path moment machine)
    (absolute : path.isAbsolute = true)
    (rooted : ((findRoot root).run machine).result = .ok found) :
    settings.CanRun machine found "patch" (patchArguments path dryRun) :=
  canRun_patch kept.sound kept.callable (kept.isFile absolute) rooted

/-- The client is called to apply the patch file exactly if the store looks for shelves in
the directory in which it stands. -/
theorem exists_patch_call_iff (shelf : ShelfName directory name)
    (kept : KeptPatch settings (directory.child (name ++ Shelf.patchSuffix)) moment machine)
    (absolute : directory.isAbsolute = true)
    (parts : ∀ part ∈ directory.parts, Path.IsPart part) :
    (∃ call ∈ calls ((settings.apply name root keepLocal dryRun).run machine).events,
        call.program = settings.program ∧ call.arguments = ("patch" : Text) ::
          patchArguments (directory.child (name ++ Shelf.patchSuffix)) dryRun) ↔
      settings.Finds machine root directory := by
  constructor
  · rintro ⟨call, made, -, passed⟩
    obtain ⟨found, path, rooted, looked, -, rfl⟩ := mem_calls_apply_iff.1 made
    obtain ⟨stem, isStem, rfl, -⟩ := exists_of_existingPatch looked
    obtain ⟨location, rfl, isRoot⟩ := isRoot_of_findRoot kept.sound rooted
    have shown := (List.cons.inj (List.cons.inj passed).2).1
    have same : (settings.shelvesPath location.toPath).child (stem ++ Shelf.patchSuffix) =
        directory.child (name ++ Shelf.patchSuffix) :=
      Path.eq_of_toText (isAbsolute_shelvesPath settings location)
        (isSuffix_patch.isPart_of_mem_child isStem.whole
          (isPart_of_mem_shelvesPath kept.sound.tree isRoot))
        absolute (isSuffix_patch.isPart_of_mem_child shelf.whole parts) shown
    exact ⟨_, rooted, (Path.child_inj same).1⟩
  · rintro ⟨found, rooted, rfl⟩
    exact ⟨_, mem_calls_apply_iff.2 ⟨found, _, rooted, kept.existingPatch shelf absolute,
      kept.canRun absolute rooted, rfl⟩, rfl, rfl⟩

end KeptPatch

/-! ### Listing the shelf -/

/-- All records of the directory can be read, that of the shelf as far as it is not about
the patch file. -/
structure LegibleAround (machine : Machine) (directory : Path) (name : Text) : Prop where
  others : ∀ place, machine.tree.Leads directory place → ∀ key ∈ keysIn machine.tree place,
    IsShelfKey key → key ≠ Shelf.keyOf name → Legible machine directory key
  message : ∃ message, ((readMessage directory name).run machine).result = .ok message

/-- A record that can be read has a path that can be passed to a program. -/
theorem Legible.noNull {key : Text} (legible : Legible machine directory key) :
    (directory.child key).toText.holds '\x00' = false := by
  obtain ⟨status, moment, found, -⟩ := legible.status
  rw [FileTree.status] at found
  split at found
  · rename_i located
    exact (FileTree.walk_of_locate located).1.noNull
  · cases found
  · cases found

namespace KeptPatch

variable {moment : FileTime}

theorem isShelfKey (shelf : ShelfName directory name) : IsShelfKey (Shelf.keyOf name) where
  ends := List.isSuffixOf_iff_suffix.2 ⟨name, rfl⟩
  filled := by
    rw [Shelf.nameOf_keyOf]
    exact shelf.filled

theorem legible {time : Instant}
    (kept : KeptPatch settings (directory.child (name ++ Shelf.patchSuffix)) moment machine)
    (absolute : directory.isAbsolute = true) (timely : moment.read = .ok time)
    (around : LegibleAround machine directory name) :
    Legible machine directory (Shelf.keyOf name) := by
  obtain ⟨location, content, located⟩ := kept.file
  have below : (directory.child (Shelf.keyOf name)).isAbsolute = true := absolute
  rw [← Shelf.keyOf] at located
  refine ⟨⟨⟨content.length, moment⟩, time, ?_, timely⟩, ?_⟩
  · rw [FileTree.status, FileTree.locate_base machine.tree machine.directory .target below, located]
    rfl
  · rw [Shelf.nameOf_keyOf]
    exact around.message

end KeptPatch

end WorkingCopyStore

end PatchShelf
