/-
Module: PatchShelf.Proofs.Store.PatchedPaths
Purpose: Applying a shelf reports the paths that making it reported.
Main exports:
  WorkingCopyStore.outputText_encode_outputText, WorkingCopyStore.reported_create,
  WorkingCopyStore.reported_apply, WorkingCopyStore.AppliesUntouched,
  WorkingCopyStore.patched_eq_shelved
-/
import PatchShelf.Proofs.Store.CreatedShelf
import PatchShelf.Proofs.Store.DryRun
import PatchShelf.Proofs.Store.FoundShelf

/-!
A shelf is made from the output of the client, and it is applied from a file.  On the way
the text was written as bytes and read again, which gives back every text that once was
output.  So the paths that are reported are the same, whatever bytes and line ends the
client printed.  Only links can come between: if they lead the paths of both files to one
file, the log message has taken the place of the patch.
-/

namespace PatchShelf

namespace WorkingCopyStore

open Activity (calls notices reported)
open Machine (NeverReports)

variable {settings : WorkingCopyStore} {request : CreateRequest} {machine later : Machine}
  {directory patchPath logPath : Path} {name root : Text} {keepLocal dryRun : Bool}

/-! ### Text that was output comes back from its bytes -/

theorem outputText_encode_outputText (output : Bytes) :
    outputText (Utf8.encode (outputText output)) = outputText output := by
  rw [encode_outputText, outputText, Utf8.decodeEscaped_uniformLines,
    Text.uniformLines_uniformLines, outputText]

/-- Valid text comes back with uniform line ends. -/
theorem outputText_encode {text : Text} (valid : text.hasRaw = false) :
    outputText (Utf8.encode text) = text.uniformLines := by
  rw [outputText, Utf8.decodeEscaped_encode valid]

theorem paths_uniformLines (patch : Text) : Patch.paths patch.uniformLines = Patch.paths patch := by
  rw [Patch.paths, Text.splitLines_uniformLines, Patch.paths]

/-! ### What is reported -/

/-- A shelf that is made is reported with the paths of its patch. -/
theorem reported_create (wet : request.dryRun = false)
    (succeeded : ((settings.create request).run machine).result = .ok ()) :
    reported .shelved ((settings.create request).run machine).events =
      Patch.paths (settings.captured machine) := by
  obtain ⟨⟨root, patchPath⟩, ready, ended⟩ :=
    (reads_prepare settings request).exists_of_bind_ok succeeded
  obtain ⟨-, reports⟩ := captures_of_ok ended wet
  rw [create, (reads_prepare settings request).run_bind_of_ok ready, reported, reports,
    List.filterMap_append, List.filterMap_map]
  cases request.keepLocal <;> simp [List.filterMap_map]

/-- A deletion reports nothing but itself. -/
theorem neverReports_delete (settings : WorkingCopyStore) (name root : Text) (dryRun : Bool) :
    NeverReports .patched (settings.delete name root dryRun) := by
  have gone (path : Path) : NeverReports .patched
      (Effect.emitAll (Activity.progress .deleted [path.toText]) : Machine.Operation Unit) :=
    .progress (by decide) _
  refine .bind (.ofSilent (.ofReads (reads_findRoot root))) fun found => ?_
  refine .bind (.ofSilent (.ofReads (reads_existingPatch _ _))) fun path => ?_
  cases dryRun with
  | true => exact gone path
  | false =>
      exact .bind (.ofSilent (silent_explainingAfter (.ofReads (.pure ()))
        (silent_removeFiles _ _ _))) fun _ => gone path

/-- An applied patch is reported with the paths of what its file holds, however the shelf is
disposed of after that. -/
theorem reported_finishApply {found : Path} {content : Bytes} {kept : Bool}
    (reads : machine.tree.read machine.directory patchPath = .ok content) :
    reported .patched ((settings.finishApply found patchPath name kept).run machine).events =
      Patch.paths (outputText content) := by
  have opened : ((explaining ("Can't read shelf '" ++ name ++ "'")
      (Machine.access fun tree base => tree.read base patchPath)).run machine).result =
        .ok content := by
    rw [run_explaining, Machine.run_access, reads]
    rfl
  rw [finishApply, (reads_explaining _ (Machine.reads_access _)).run_bind_of_ok opened,
    Effect.run_bind, Effect.run_emitAll]
  simp only
  rw [Activity.reported_append, Activity.reported_progress]
  cases kept with
  | true => simp [reported]
  | false =>
      rw [if_neg (by simp), neverReports_delete, List.append_nil]

/-- The client is called to apply a patch that is found, and if it succeeds the patch is
reported as it then stands. -/
theorem reported_apply {found : Path} {content : Bytes} (sound : later.Sound)
    (rooted : ((findRoot root).run later).result = .ok found)
    (named : shelfFile (settings.shelvesPath found) name Shelf.patchSuffix = .ok patchPath)
    (isFile : later.tree.isFile later.directory patchPath = .ok true)
    (callable : later.Callable settings.program) (good : (settings.reply later).status = 0)
    (reads : (later.afterCall settings.program).tree.read
      (later.afterCall settings.program).directory patchPath = .ok content) :
    reported .patched ((settings.apply name root keepLocal dryRun).run later).events =
      Patch.paths (outputText content) := by
  have looked := existingPatch_of_isFile named isFile
  have open_ : settings.CanRun later found "patch" (patchArguments patchPath dryRun) :=
    canRun_patch sound callable isFile rooted
  rw [run_apply_of_found rooted looked, Effect.run_bind, run_runClient open_, taken, if_pos good]
  simp only
  rw [Activity.reported_append, reported_finishApply reads]
  rfl

/-! ### Making and applying -/

/-- A shelf is applied as it was made: where it is found, by a client that succeeds and
leaves the patch file alone. -/
structure AppliesUntouched (settings : WorkingCopyStore) (made later : Machine) (root : Text)
    (directory patchPath : Path) : Prop where
  sound : later.Sound
  finds : settings.Finds later root directory
  callable : later.Callable settings.program
  good : (settings.reply later).status = 0
  untouched : later.tree.read [] patchPath = made.tree.read [] patchPath
  spared : (later.afterCall settings.program).tree.read [] patchPath =
    later.tree.read [] patchPath

theorem AppliesUntouched.reported {made : Machine} {content : Bytes}
    (applies : AppliesUntouched settings made later root directory patchPath)
    (absolute : patchPath.isAbsolute = true)
    (named : shelfFile directory name Shelf.patchSuffix = .ok patchPath)
    (reads : made.tree.read [] patchPath = .ok content) :
    reported .patched ((settings.apply name root keepLocal dryRun).run later).events =
      Patch.paths (outputText content) := by
  obtain ⟨found, rooted, rfl⟩ := applies.finds
  have stands := applies.untouched.trans reads
  have isFile : later.tree.isFile later.directory patchPath = .ok true :=
    FileTree.isFile_of_read ((FileTree.read_base _ _ absolute).trans stands)
  exact reported_apply applies.sound rooted named isFile applies.callable applies.good
    ((FileTree.read_base _ _ absolute).trans (applies.spared.trans stands))

/-- Applying an untouched shelf reports just the paths that making it reported, in their
order and as often, whatever the client printed for a patch.  If links lead the paths of
both files to one file, it reports the paths that the log message names. -/
theorem patched_eq_shelved (settings : WorkingCopyStore) (request : CreateRequest)
    (machine later : Machine) (root : Text) (keepLocal dryRun : Bool)
    {directory patchPath logPath : Path} (sound : machine.Sound) (wet : request.dryRun = false)
    (succeeded : ((settings.create request).run machine).result = .ok ())
    (asked : settings.directory? request machine = some directory)
    (named : shelfFile directory request.name Shelf.patchSuffix = .ok patchPath)
    (logNamed : shelfFile directory request.name Shelf.logSuffix = .ok logPath)
    (aside : ∀ call ∈ calls ((settings.create request).run machine).events,
      RevertsBeside patchPath logPath call)
    (applies : AppliesUntouched settings ((settings.create request).run machine).world later root
      directory patchPath) :
    reported .shelved ((settings.create request).run machine).events =
        Patch.paths (outputText (settings.reply machine).output) ∧
      ((request.logMessage.isSome = true →
          ¬ SameFile ((settings.create request).run machine).world.tree patchPath logPath) →
        reported .patched
            ((settings.apply request.name root keepLocal dryRun).run later).events =
          reported .shelved ((settings.create request).run machine).events) ∧
      ∀ message, request.logMessage = some message →
        SameFile ((settings.create request).run machine).world.tree patchPath logPath →
          reported .patched
              ((settings.apply request.name root keepLocal dryRun).run later).events =
            Patch.paths message := by
  obtain ⟨place, path, log, written, taken, creation⟩ := exists_creation wet succeeded
  obtain rfl := Option.some.inj (asked.symm.trans (directory?_of_prepared creation.prepared))
  obtain rfl := Except.ok.inj (named.symm.trans creation.prepared.named)
  obtain rfl := Except.ok.inj (logNamed.symm.trans creation.logNamed)
  obtain ⟨-, absolute, -⟩ := creation.isAbsolute sound
  have shelved := reported_create wet succeeded
  refine ⟨shelved, fun apart => ?_, fun message given same => ?_⟩
  · have reads := creation.read_patch sound aside apart
    rw [applies.reported absolute named reads, shelved, captured, outputText_encode_outputText]
  · have reads := creation.read_patch_of_sameFile sound aside given same
    rw [applies.reported absolute named reads,
      outputText_encode (creation.hasRaw_of_logMessage given), paths_uniformLines]

/-- Output with a stray byte, a lone carriage return and no line feed at its end. -/
def roughOutput : Bytes :=
  Utf8.encode "Index: a\r\n+" ++ [0xFF, 0x0D] ++ Utf8.encode "Index: b"

/-- A shelf of the whole working copy, with a log message. -/
def roughCreation : Outcome Activity Machine Unit :=
  (plainSettings.create (plainRequest (some "why"))).run (plainMachine roughOutput)

theorem patched_eq_shelved_of_rough_output :
    reported .patched ((plainSettings.apply "n" "/wc" false false).run
      roughCreation.world).events = [("a" : Text), "b"] := by
  have still : ∀ call ∈ calls roughCreation.events, call.left = call.found ∧ call.left.Sound := by
    decide +kernel
  have asked : plainSettings.directory? (plainRequest (some "why")) (plainMachine roughOutput) =
      some plainDirectory := by decide +kernel
  have named : shelfFile plainDirectory "n" Shelf.patchSuffix =
      .ok (plainDirectory.child "n.patch") := by decide +kernel
  have logNamed : shelfFile plainDirectory "n" Shelf.logSuffix =
      .ok (plainDirectory.child "n.log") := by decide +kernel
  have elsewhere : roughCreation.world.tree.locate [] .target (plainDirectory.child "n.patch") ≠
      roughCreation.world.tree.locate [] .target (plainDirectory.child "n.log") := by
    decide +kernel
  have applies : AppliesUntouched plainSettings roughCreation.world roughCreation.world "/wc"
      plainDirectory (plainDirectory.child "n.patch") :=
    ⟨⟨by decide +kernel, fun _ => rfl⟩, ⟨⟨.root, ["wc"]⟩, by decide +kernel, rfl⟩,
      ⟨[], [], by decide +kernel⟩, by decide +kernel, rfl, by decide +kernel⟩
  obtain ⟨shelved, patched, -⟩ := patched_eq_shelved plainSettings (plainRequest (some "why"))
    (plainMachine roughOutput) roughCreation.world "/wc" false false
    ⟨by decide +kernel, fun _ => rfl⟩ rfl (by decide +kernel) asked named logNamed
    (fun call member => by
      obtain ⟨alike, sound⟩ := still call member
      exact ⟨sound, fun _ => ⟨sound, by rw [alike], by rw [alike]⟩⟩)
    applies
  have apart : ¬ SameFile roughCreation.world.tree (plainDirectory.child "n.patch")
      (plainDirectory.child "n.log") := by
    rintro ⟨location, entry, first, second⟩
    exact elsewhere (first.trans second.symm)
  refine (patched fun _ => apart).trans (shelved.trans ?_)
  decide +kernel

/-- In the directory of shelves stands a link under the name of the log file, which leads to
where the patch will be. -/
def linkedMachine : Machine :=
  let plain := plainMachine (Utf8.encode "Index: a\n+x\n")
  let shelves : Location := [Utf8.encode "shelves", Utf8.encode ".svn", Utf8.encode "wc"]
  plain.withTree ((plain.tree.put shelves .directory).put (Utf8.encode "n.log" :: shelves)
    (.link (Utf8.encode "n.patch")))

/-- A shelf that is made there, with a log message. -/
def linkedCreation : Outcome Activity Machine Unit :=
  (plainSettings.create (plainRequest (some "why"))).run linkedMachine

/-- The log message is written over the patch, so no path is reported when the shelf is
applied. -/
theorem patched_ne_shelved_of_linked_log :
    linkedCreation.result = .ok () ∧
      (∀ call ∈ calls linkedCreation.events, call.left = call.found) ∧
      AppliesUntouched plainSettings linkedCreation.world linkedCreation.world "/wc"
        plainDirectory (plainDirectory.child "n.patch") ∧
      reported .patched
          ((plainSettings.apply "n" "/wc" true false).run linkedCreation.world).events ≠
        reported .shelved linkedCreation.events := by
  refine ⟨by decide +kernel, by decide +kernel, ?_, by decide +kernel⟩
  exact ⟨⟨by decide +kernel, fun _ => rfl⟩, ⟨⟨.root, ["wc"]⟩, by decide +kernel, rfl⟩,
    ⟨[], [], by decide +kernel⟩, by decide +kernel, rfl, by decide +kernel⟩

end WorkingCopyStore

end PatchShelf
