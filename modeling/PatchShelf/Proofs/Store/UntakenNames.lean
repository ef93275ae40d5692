/-
Module: PatchShelf.Proofs.Store.UntakenNames
Purpose: What the store does for a valid name if the system does not take its patch file.
Main exports:
  WorkingCopyStore.ValidName, WorkingCopyStore.shelfName_of_isFile,
  WorkingCopyStore.untaken_delete, WorkingCopyStore.untaken_create
-/
import PatchShelf.Proofs.FileTree.DeadEnds
import PatchShelf.Proofs.Store.Verdicts

/-!
The check of a name does not bound its length.  If the name of the patch file or its path is
too long for the system, no shelf is ever found or saved under the name: the files of the other
shelves stay as they are, though the directory of shelves can have been made.
-/

namespace PatchShelf

namespace WorkingCopyStore

open FileTree (EntryPath)

/-- A name that passes all checks, of any length. -/
structure ValidName (name : Text) : Prop where
  valid : Arguments.toUtf8 (.text name) = .ok name
  accepted : Arguments.checkShelfName name = .ok name

variable {settings : WorkingCopyStore} {machine : Machine} {tree : FileTree}
  {root directory : Path} {base place : Location} {shelves : SavedShelves} {name : Text}

/-- A name whose patch file has a path that the system takes is that of a shelf. -/
theorem ValidName.shelfName (valid : ValidName name)
    (entry : EntryPath directory (name ++ Shelf.patchSuffix)) : ShelfName directory name :=
  ⟨⟨valid.accepted, readable_of_toUtf8 valid.valid, entry.short⟩, entry.fits⟩

/-! ### Nothing stands under the name -/

/-- A path to an entry that can be located is taken by the system. -/
theorem HoldsShelves.shelfName_of_located {aim : WalkAim} {spot : Spot}
    (holds : HoldsShelves tree directory place shelves) (absolute : directory.isAbsolute = true)
    (valid : ValidName name)
    (located : tree.locate [] aim (directory.child (name ++ Shelf.patchSuffix)) = .ok spot) :
    ShelfName directory name := by
  have isName := isSuffix_patch.isEntryName (whole_of_checkShelfName valid.accepted)
  have below : (directory.child (name ++ Shelf.patchSuffix)).isAbsolute = true := absolute
  have fits := (FileTree.fits_of_locate below located).1
  have short := (FileTree.eq_spotIn_of_locate_child absolute isName holds.leads
    (.inr (holds.noLink _)) located).2
  exact valid.shelfName ⟨absolute, isName, short, fits⟩

/-- A name whose patch is there makes files. -/
theorem shelfName_of_isFile (represents : Represents tree directory shelves)
    (absolute : directory.isAbsolute = true) (valid : ValidName name)
    (found : tree.isFile base (directory.child (name ++ Shelf.patchSuffix)) = .ok true) :
    ShelfName directory name := by
  have isName := isSuffix_patch.isEntryName (whole_of_checkShelfName valid.accepted)
  have below : (directory.child (name ++ Shelf.patchSuffix)).isAbsolute = true := absolute
  obtain ⟨location, content, modified, located⟩ := FileTree.exists_of_isFile found
  rw [FileTree.locate_base tree base .target below] at located
  cases represents with
  | vacant vacant empty =>
      obtain ⟨place, leads⟩ :=
        FileTree.exists_leads_of_locate_child absolute isName located
      exact absurd leads (vacant.not_leads place)
  | held place holds => exact holds.shelfName_of_located absolute valid located

section Untaken

variable (absolute : directory.isAbsolute = true) (valid : ValidName name)
  (untaken : ¬ ShelfName directory name)

include absolute valid untaken

/-- To write the patch of a name that makes no file is refused. -/
theorem HoldsShelves.exists_write_error (holds : HoldsShelves tree directory place shelves)
    (base : Location) (moment : FileTime) (content : Bytes) :
    ∃ fault, tree.write base moment (directory.child (name ++ Shelf.patchSuffix)) content =
      .error fault := by
  have below : (directory.child (name ++ Shelf.patchSuffix)).isAbsolute = true := absolute
  rw [FileTree.write, FileTree.locate_base tree base .writing below]
  cases located : tree.locate [] .writing (directory.child (name ++ Shelf.patchSuffix)) with
  | error fault => exact ⟨fault, rfl⟩
  | ok spot => exact absurd (holds.shelfName_of_located absolute valid located) untaken

/-- Taking away the patch of a name that makes no file is refused. -/
theorem HoldsShelves.exists_unlink_error (holds : HoldsShelves tree directory place shelves)
    (base : Location) :
    ∃ fault, tree.unlink base (directory.child (name ++ Shelf.patchSuffix)) = .error fault := by
  have below : (directory.child (name ++ Shelf.patchSuffix)).isAbsolute = true := absolute
  rw [FileTree.unlink, FileTree.locate_base tree base .entry below]
  cases located : tree.locate [] .entry (directory.child (name ++ Shelf.patchSuffix)) with
  | error fault => exact ⟨fault, rfl⟩
  | ok spot => exact absurd (holds.shelfName_of_located absolute valid located) untaken

/-- Writing the files of the name makes the directory of shelves, at most. -/
theorem exists_stop_writeFiles (sound : machine.tree.Sound)
    (represents : Represents machine.tree directory shelves) (logPath : Path) (patch : Bytes)
    (message : Option Bytes) :
    ∃ new reason, (writeFiles directory (directory.child (name ++ Shelf.patchSuffix)) logPath patch
        message).run machine = ⟨.error reason, machine.withTree new, []⟩ ∧
      new.Sound ∧ FileTree.KeepsWays machine.tree new ∧
      ∃ place, HoldsShelves new directory place shelves := by
  obtain ⟨new, place, made, soundNew, keeps, holds⟩ :=
    exists_run_makeDirectories represents absolute sound
  obtain ⟨fault, refused⟩ := holds.exists_write_error absolute valid untaken machine.directory
    machine.clock patch
  refine ⟨new, .fault fault, ?_, soundNew, keeps, place, holds⟩
  rw [writeFiles_eq, Effect.run_bind, made]
  simp only
  rw [writeBoth.eq_def, Effect.run_bind, Machine.run_writeFile]
  simp only [Machine.tree_withTree, Machine.directory_withTree, Machine.clock_withTree, refused]
  rfl

/-- Nothing is cleaned up after that. -/
theorem exists_world_cleaned (sound : machine.tree.Sound)
    (represents : Represents machine.tree directory shelves) (lead : Text) (logPath : Path)
    (patch : Bytes) (message : Option Bytes) :
    ∃ new, ((explainingAfter
        (Machine.unlinkIfPresent (directory.child (name ++ Shelf.patchSuffix))) lead
        (writeFiles directory (directory.child (name ++ Shelf.patchSuffix)) logPath patch
          message)).run machine).world = machine.withTree new ∧
      new.Sound ∧ FileTree.KeepsWays machine.tree new ∧ Represents new directory shelves := by
  obtain ⟨new, reason, stopped, soundNew, keeps, place, holds⟩ :=
    exists_stop_writeFiles absolute valid untaken sound represents logPath patch message
  obtain ⟨fault, refused⟩ := holds.exists_unlink_error absolute valid untaken machine.directory
  have cleaned : ((Machine.unlinkIfPresent
      (directory.child (name ++ Shelf.patchSuffix))).run (machine.withTree new)).world =
        machine.withTree new := by
    rw [Machine.run_unlinkIfPresent, Machine.tree_withTree, Machine.directory_withTree, refused]
    split
    · rename_i same
      cases same
    · rfl
    · rfl
  refine ⟨new, ?_, soundNew, keeps, .held place holds⟩
  rw [run_explainingAfter, stopped]
  simp only
  split
  · rfl
  · rw [Effect.run_bind]
    split
    · exact cleaned
    · exact cleaned
  · rfl

end Untaken

/-! ### Deleting and making -/

/-- The shelves stay as they are, and nothing but a dry run can have succeeded. -/
structure Untaken (directory : Path) (shelves : SavedShelves) (dryRun : Bool)
    (outcome : Outcome Activity Machine Unit) : Prop where
  sound : outcome.world.Sound
  represents : Represents outcome.world.tree directory shelves
  dry : (∃ value, outcome.result = .ok value) → dryRun = true

namespace Untaken

variable {dryRun : Bool} {reason : Stop} {events : List Activity}

theorem error (sound : machine.Sound) (represents : Represents machine.tree directory shelves) :
    Untaken directory shelves dryRun ⟨.error reason, machine, events⟩ :=
  ⟨sound, represents, nofun⟩

theorem behind {outcome : Outcome Activity Machine Unit}
    (untaken : Untaken directory shelves dryRun outcome) :
    Untaken directory shelves dryRun ⟨outcome.result, outcome.world, events⟩ :=
  ⟨untaken.sound, untaken.represents, untaken.dry⟩

end Untaken

/-- A delete of such a name is refused and leaves everything. -/
theorem exists_stop_delete {path : Text} {dryRun : Bool}
    (found : ((findRoot path).run machine).result = .ok root)
    (absolute : (settings.shelvesPath root).isAbsolute = true)
    (represents : Represents machine.tree (settings.shelvesPath root) shelves)
    (valid : ValidName name) (untaken : ¬ ShelfName (settings.shelvesPath root) name) :
    ∃ reason, (settings.delete name path dryRun).run machine = ⟨.error reason, machine, []⟩ := by
  rw [delete, (reads_findRoot path).run_bind, found]
  simp only
  rw [(reads_existingPatch _ _).run_bind]
  cases ended : ((existingPatch (settings.shelvesPath root) name).run machine).result with
  | error reason => exact ⟨reason, rfl⟩
  | ok patchPath =>
      obtain ⟨stem, isStem, rfl, isFile⟩ := exists_of_existingPatch ended
      obtain rfl := isStem.eq_of_whole (whole_of_checkShelfName valid.accepted)
      exact absurd (shelfName_of_isFile represents absolute valid isFile) untaken

section Create

variable {request : CreateRequest} {first : Text} {rest : List Text}

/-- To save under such a name fails, and leaves the shelves. -/
theorem untaken_save {patch : Text} {outcome : Outcome Activity Machine Unit}
    (run : SaveRun settings root
      ((settings.shelvesPath root).child (request.name ++ Shelf.patchSuffix)) request patch
      machine outcome)
    (sound : machine.Sound) (absolute : (settings.shelvesPath root).isAbsolute = true)
    (represents : Represents machine.tree (settings.shelvesPath root) shelves)
    (valid : ValidName request.name)
    (untaken : ¬ ShelfName (settings.shelvesPath root) request.name) :
    Untaken (settings.shelvesPath root) shelves request.dryRun outcome := by
  cases run with
  | unencodable refused => exact .error sound represents
  | misnamed encoded refused => exact .error sound represents
  | unwritten encoded named refused cleaned =>
      obtain ⟨new, left, soundNew, keeps, after⟩ := exists_world_cleaned absolute valid untaken
        sound.tree represents _ _ _ _
      rw [cleaned] at left
      obtain rfl := left
      exact .error (sound.withTree soundNew keeps) after
  | written encoded named writes takes =>
      obtain ⟨new, reason, stopped, -⟩ := exists_stop_writeFiles absolute valid untaken sound.tree
        represents _ _ _
      cases writes.symm.trans stopped

/-- A create under a name that makes no file fails unless it is dry, and leaves the shelves. -/
theorem untaken_create (targets : request.targets = first :: rest)
    (found : ((findRoot first).run machine).result = .ok root) (sound : machine.Sound)
    (absolute : (settings.shelvesPath root).isAbsolute = true)
    (represents : Represents machine.tree (settings.shelvesPath root) shelves)
    (valid : ValidName request.name)
    (untaken : ¬ ShelfName (settings.shelvesPath root) request.name)
    (spares : settings.AllSpare root ((settings.create request).run machine).events) :
    Untaken (settings.shelvesPath root) shelves request.dryRun
      ((settings.create request).run machine) := by
  rcases create_cases settings request machine with
    ⟨reason, -, stopped⟩ | ⟨place, patchPath, prepared, run⟩
  · rw [stopped]
    exact .error sound represents
  · obtain ⟨start, others, sameTargets, sameRoot⟩ := prepared.inside
    obtain rfl := (List.cons.inj (targets.symm.trans sameTargets)).1
    obtain rfl := Except.ok.inj (found.symm.trans sameRoot)
    have named := prepared.named
    rw [shelfFile_of_accepted valid.accepted _ isSuffix_patch] at named
    obtain rfl := Except.ok.inj named
    generalize (settings.create request).run machine = outcome at run spares
    cases run with
    | uncalled closed => exact .error sound represents
    | failed called bad =>
        obtain ⟨soundAfter, after⟩ := represents.afterCall (spares _ List.mem_cons_self)
        exact .error soundAfter after
    | blank called good blank =>
        obtain ⟨soundAfter, after⟩ := represents.afterCall (spares _ List.mem_cons_self)
        exact .error soundAfter after
    | previewed called good filled dry =>
        obtain ⟨soundAfter, after⟩ := represents.afterCall (spares _ List.mem_cons_self)
        exact ⟨soundAfter, after, fun _ => dry⟩
    | saved called good filled wet saves =>
        obtain ⟨soundAfter, after⟩ := represents.afterCall (spares _ List.mem_cons_self)
        exact (untaken_save saves soundAfter absolute after valid untaken).behind

end Create

end WorkingCopyStore

end PatchShelf
