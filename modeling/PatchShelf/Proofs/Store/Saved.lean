/-
Module: PatchShelf.Proofs.Store.Saved
Purpose: Changes are saved before they are taken out of the working copy, and stay saved.
Main exports:
  WorkingCopyStore.Undisturbed, WorkingCopyStore.directory?, WorkingCopyStore.LeavesAlone,
  WorkingCopyStore.SavedFiles, WorkingCopyStore.revert_after_save
-/
import PatchShelf.Proofs.Store.CreateRun
import PatchShelf.Proofs.Text.LineEnds

/-!
The client may do to the files whatever it likes, as long as it leaves the directory of
shelves alone.  Then the changes are taken out of the working copy only when the patch
and the log message are in their files, and nothing that follows touches these.
-/

namespace PatchShelf

namespace WorkingCopyStore

open Activity (calls)
open FileTree (IsEntryName)

/-! ### Programs that leave the directory of shelves alone -/

/-- The path of the directory leads where it led, and its entries are the same. -/
structure Undisturbed (directory : Path) (old new : FileTree) : Prop where
  sound : new.Sound
  leads : ∀ place, new.Leads directory place ↔ old.Leads directory place
  content : ∀ place, old.Leads directory place → ∀ name,
    new.get? (name :: place) = old.get? (name :: place)

/-- A file is held where the directory is not disturbed. -/
theorem HoldsFile.undisturbed {directory : Path} {old new : FileTree} {part : Text}
    {content : Bytes} (holds : HoldsFile old directory part content)
    (aside : Undisturbed directory old new) : HoldsFile new directory part content := by
  obtain ⟨place, modified, leads, stands⟩ := holds.stands
  exact ⟨holds.absolute, holds.name, holds.short, holds.fits, place, modified,
    (aside.leads place).2 leads, (aside.content place leads _).trans stands⟩

/-- A directory stays free of links where it is not disturbed. -/
theorem FreeOfLinks.undisturbed {directory : Path} {old new : FileTree}
    (free : FreeOfLinks old directory) (aside : Undisturbed directory old new) :
    FreeOfLinks new directory := by
  intro place leads name target linked
  have before := (aside.leads place).1 leads
  exact free place before name target ((aside.content place before name).symm.trans linked)

theorem Undisturbed.refl {directory : Path} {tree : FileTree} (sound : tree.Sound) :
    Undisturbed directory tree tree :=
  ⟨sound, fun _ => Iff.rfl, fun _ _ _ => rfl⟩

/-- The directory of shelves that a request is about. -/
def directory? (settings : WorkingCopyStore) (request : CreateRequest) (machine : Machine) :
    Option Path :=
  match request.targets with
  | [] => none
  | first :: _ =>
    match ((findRoot first).run machine).result with
    | .ok root => some (settings.shelvesPath root)
    | .error _ => none

theorem directory?_of_prepared {settings : WorkingCopyStore} {request : CreateRequest}
    {machine : Machine} {root patchPath : Path}
    (prepared : Prepared settings request machine root patchPath) :
    settings.directory? request machine = some (settings.shelvesPath root) := by
  obtain ⟨first, rest, targets, found⟩ := prepared.inside
  rw [directory?, targets]
  simp only
  rw [found]

/-- The directory of shelves of a request holds no link, if it is there. -/
def StartsFreeOfLinks (settings : WorkingCopyStore) (request : CreateRequest)
    (machine : Machine) : Prop :=
  ∀ directory, settings.directory? request machine = some directory →
    FreeOfLinks machine.tree directory

/-- Every call that a request leads to leaves the directory of shelves alone. -/
def LeavesAlone (settings : WorkingCopyStore) (request : CreateRequest)
    (machine : Machine) : Prop :=
  ∀ directory, settings.directory? request machine = some directory →
    ∀ call ∈ calls ((settings.create request).run machine).events,
      Undisturbed directory call.found call.left

/-! ### What is saved -/

/-- A message without stray bytes is encoded. -/
theorem encodeMessage_of_valid (name : Text) {given : Option Text}
    (valid : ∀ message, given = some message → message.hasRaw = false) :
    encodeMessage name given = .ok (given.map Utf8.encode) := by
  cases given with
  | none => rfl
  | some message =>
      rw [encodeMessage, Utf8.encodeValid_of_noRaw (valid message rfl)]
      rfl

/-- The files of a request hold a patch and the log message. -/
structure SavedFiles (request : CreateRequest) (directory : Path) (patch : Text)
    (tree : FileTree) (patchPart logPart : Text) : Prop where
  patchNamed : shelfFile directory request.name Shelf.patchSuffix =
    .ok (directory.child patchPart)
  logNamed : shelfFile directory request.name Shelf.logSuffix = .ok (directory.child logPart)
  holdsPatch : HoldsFile tree directory patchPart (Utf8.encode patch)
  holdsLog : ∀ message, request.logMessage = some message →
    HoldsFile tree directory logPart (Utf8.encode message)

/-- The files of a shelf are saved as long as nothing disturbs them. -/
theorem SavedFiles.undisturbed {request : CreateRequest} {directory : Path}
    {patch patchPart logPart : Text} {old new : FileTree}
    (saved : SavedFiles request directory patch old patchPart logPart)
    (aside : Undisturbed directory old new) :
    SavedFiles request directory patch new patchPart logPart where
  patchNamed := saved.patchNamed
  logNamed := saved.logNamed
  holdsPatch := saved.holdsPatch.undisturbed aside
  holdsLog := fun message given => (saved.holdsLog message given).undisturbed aside

section Create

variable {settings : WorkingCopyStore} {request : CreateRequest} {machine : Machine}
  {root patchPath logPath : Path}

/-- How the files of a prepared request are written after the client gave the patch. -/
theorem exists_filesWritten_of_prepared (sound : machine.Sound)
    (inside : Path.up ∉ (Path.ofText settings.shelvesDirectory).parts)
    (prepared : Prepared settings request machine root patchPath)
    (free : FreeOfLinks machine.tree (settings.shelvesPath root))
    {before after : Machine} {patch : Bytes} {message : Option Bytes}
    (aside : Undisturbed (settings.shelvesPath root) machine.tree before.tree)
    (named : shelfFile (settings.shelvesPath root) request.name Shelf.logSuffix = .ok logPath)
    (writes : (writeFiles (settings.shelvesPath root) patchPath logPath patch message).run
      before = ⟨.ok (), after, []⟩) :
    ∃ one two base place,
      IsEntryName (one ++ Shelf.patchSuffix) ∧ IsEntryName (two ++ Shelf.logSuffix) ∧
      patchPath = (settings.shelvesPath root).child (one ++ Shelf.patchSuffix) ∧
      logPath = (settings.shelvesPath root).child (two ++ Shelf.logSuffix) ∧
      FilesWritten before (settings.shelvesPath root) (one ++ Shelf.patchSuffix)
        (two ++ Shelf.logSuffix) message base place ∧
      after = before.withTree (putFiles base place (Utf8.encode (one ++ Shelf.patchSuffix))
        (Utf8.encode (two ++ Shelf.logSuffix)) before.clock patch message) := by
  obtain ⟨first, rest, targets, found⟩ := prepared.inside
  obtain ⟨location, rfl, isRoot⟩ := isRoot_of_findRoot sound found
  obtain ⟨one, patchName, rfl⟩ := exists_of_shelfFile isSuffix_patch prepared.named
  obtain ⟨two, logName, rfl⟩ := exists_of_shelfFile isSuffix_log named
  have succeeded := congrArg Outcome.result writes
  obtain ⟨base, place, written, ran⟩ := exists_filesWritten
    (isAbsolute_shelvesPath settings location)
    (isEntryName_of_mem_shelvesPath sound.tree isRoot inside) patchName logName aside.sound
    (free.undisturbed aside) succeeded
  rw [writes] at ran
  exact ⟨one, two, base, place, patchName, logName, rfl, rfl, written,
    congrArg Outcome.world ran⟩

/-- Once the files of a prepared request are written, they are saved. -/
theorem savedFiles_of_written (sound : machine.Sound)
    (inside : Path.up ∉ (Path.ofText settings.shelvesDirectory).parts)
    (prepared : Prepared settings request machine root patchPath)
    (free : FreeOfLinks machine.tree (settings.shelvesPath root))
    {before after : Machine} {patch : Text} {message : Option Bytes}
    (aside : Undisturbed (settings.shelvesPath root) machine.tree before.tree)
    (encoded : encodeMessage request.name request.logMessage = .ok message)
    (named : shelfFile (settings.shelvesPath root) request.name Shelf.logSuffix = .ok logPath)
    (writes : (writeFiles (settings.shelvesPath root) patchPath logPath (Utf8.encode patch)
      message).run before = ⟨.ok (), after, []⟩) :
    ∃ patchPart logPart,
      SavedFiles request (settings.shelvesPath root) patch after.tree patchPart logPart := by
  obtain ⟨first, rest, targets, found⟩ := prepared.inside
  have absolute := isAbsolute_of_findRoot settings sound found
  obtain ⟨one, two, base, place, patchName, logName, rfl, rfl, written, rfl⟩ :=
    exists_filesWritten_of_prepared sound inside prepared free aside named writes
  obtain rfl := encodeMessage_eq_ok encoded
  refine ⟨_, _, prepared.named, named, ?_, ?_⟩
  · exact holdsFile_patch absolute patchName written.leads written.takes _ _
      (encode_patch_ne_encode_log one two)
  · intro message given
    rw [given] at written ⊢
    exact holdsFile_log absolute logName written.leads written.takes _ _

/-! ### The order of saving and taking out -/

/-- What holds when the client is called to take changes out: the request wants it, the
same selection was captured just before, and the files hold what was captured and
keep it until the end. -/
structure RevertedAfterSave (settings : WorkingCopyStore) (request : CreateRequest)
    (machine : Machine) (outcome : Outcome Activity Machine Unit) (revert : ProgramCall) :
    Prop where
  wet : request.dryRun = false
  takes : request.keepLocal = false
  order : ∃ diff, calls outcome.events = [diff, revert] ∧
    diff.arguments = ("diff" : Text) :: selection request ∧
    revert.arguments = ("revert" : Text) :: selection request
  untouched : outcome.world.tree = revert.left
  saved : ∃ directory patchPath logPath,
    settings.directory? request machine = some directory ∧
    shelfFile directory request.name Shelf.patchSuffix = .ok patchPath ∧
    shelfFile directory request.name Shelf.logSuffix = .ok logPath ∧
    ∀ tree, tree = revert.found ∨ tree = outcome.world.tree →
      tree.read [] patchPath = .ok (Utf8.encode (settings.captured machine)) ∧
      ∀ message, request.logMessage = some message →
        tree.read [] logPath = .ok (Utf8.encode message)

/-- Who takes the changes out has saved them before. -/
theorem TakesOut.revertedAfterSave {written : Machine}
    (out : TakesOut settings request machine root patchPath logPath written)
    (sound : machine.Sound) (inside : Path.up ∉ (Path.ofText settings.shelvesDirectory).parts)
    (free : FreeOfLinks machine.tree (settings.shelvesPath root))
    (spares : ∀ call ∈ calls ((settings.create request).run machine).events,
      Undisturbed (settings.shelvesPath root) call.found call.left) :
    RevertedAfterSave settings request machine ((settings.create request).run machine)
      (settings.clientCall written root "revert" (selection request)) := by
  rw [out.order] at spares
  have first : Undisturbed (settings.shelvesPath root) machine.tree
      (machine.afterCall settings.program).tree := spares _ List.mem_cons_self
  have second : Undisturbed (settings.shelvesPath root) written.tree
      (written.afterCall settings.program).tree :=
    spares _ (List.mem_cons_of_mem _ List.mem_cons_self)
  obtain ⟨patchPart, logPart, saved⟩ :=
    savedFiles_of_written sound inside out.prepared free first out.encoded out.logNamed out.writes
  refine ⟨out.wet, out.takes, ⟨_, out.order, rfl, rfl⟩, congrArg Machine.tree out.world, _, _, _,
    directory?_of_prepared out.prepared, saved.patchNamed, saved.logNamed, ?_⟩
  rw [out.world]
  -- What holds after the files were written still holds after the client took the changes out.
  have keeps : ∀ tree, tree = written.tree ∨ tree = (written.afterCall settings.program).tree →
      SavedFiles request (settings.shelvesPath root) (settings.captured machine) tree
        patchPart logPart := by
    rintro tree (rfl | rfl)
    · exact saved
    · exact saved.undisturbed second
  intro tree either
  have held := keeps tree either
  exact ⟨held.holdsPatch.read [], fun message given => (held.holdsLog message given).read []⟩

/-- If changes are taken out at all, then only after they were saved, and they stay
saved, whether the client succeeds or not. -/
theorem revert_after_save (settings : WorkingCopyStore) (request : CreateRequest)
    (machine : Machine) (sound : machine.Sound)
    (inside : Path.up ∉ (Path.ofText settings.shelvesDirectory).parts)
    (free : settings.StartsFreeOfLinks request machine)
    (aside : settings.LeavesAlone request machine) (revert : ProgramCall)
    (made : revert ∈ calls ((settings.create request).run machine).events)
    (reverts : revert.arguments.head? = some ("revert" : Text)) :
    RevertedAfterSave settings request machine ((settings.create request).run machine) revert := by
  obtain ⟨root, patchPath, logPath, written, out, rfl⟩ := exists_takesOut made reverts
  have directory := directory?_of_prepared out.prepared
  exact out.revertedAfterSave sound inside (free _ directory) (aside _ directory)

end Create

/-- The store with the usual client and directory. -/
def plainSettings : WorkingCopyStore := ⟨"svn", "shelves"⟩

/-- A machine with a working copy `/wc` and a client that says something once and touches
no file. -/
def plainMachine (output : Bytes) : Machine where
  tree := (FileTree.empty.put [Utf8.encode "wc"] .directory).put
    [Utf8.encode ".svn", Utf8.encode "wc"] .directory
  directory := []
  clock := .epoch
  programs := .ofList [("svn", ⟨true, [⟨0, output, [], id⟩]⟩)]

/-- The directory of shelves of that working copy. -/
def plainDirectory : Path :=
  plainSettings.shelvesPath ⟨.root, ["wc"]⟩

/-- A request for a shelf of the whole working copy. -/
def plainRequest (message : Option Text) : CreateRequest :=
  ⟨"n", ["/wc"], .infinity, [], false, false, message⟩

theorem revert_after_save_plain :
    ∃ revert ∈ calls ((plainSettings.create (plainRequest (some "why"))).run
        (plainMachine (Utf8.encode "Index: a\n+x\n"))).events,
      RevertedAfterSave plainSettings (plainRequest (some "why"))
        (plainMachine (Utf8.encode "Index: a\n+x\n"))
        ((plainSettings.create (plainRequest (some "why"))).run
          (plainMachine (Utf8.encode "Index: a\n+x\n"))) revert := by
  obtain ⟨revert, made, reverts⟩ :
      ∃ call ∈ calls ((plainSettings.create (plainRequest (some "why"))).run
        (plainMachine (Utf8.encode "Index: a\n+x\n"))).events,
        call.arguments.head? = some ("revert" : Text) := by decide +kernel
  have still : ∀ call ∈ calls ((plainSettings.create (plainRequest (some "why"))).run
      (plainMachine (Utf8.encode "Index: a\n+x\n"))).events,
      call.left = call.found ∧ call.found.Sound := by decide +kernel
  refine ⟨revert, made, revert_after_save _ _ _ ⟨by decide +kernel, fun _ => rfl⟩ (by decide)
    (fun directory _ => freeOfLinks_of_entries (by decide +kernel) directory) ?_ revert made
    reverts⟩
  intro directory _ call member
  obtain ⟨same, sound⟩ := still call member
  rw [same]
  exact .refl sound

end WorkingCopyStore

end PatchShelf
