/-
Module: PatchShelf.Proofs.Store.ShelfSteps
Purpose: Looking up, writing and removing the files of a shelf, as steps of the map.
Main exports:
  WorkingCopyStore.Represents.probe_patch, WorkingCopyStore.existingPatch_cases,
  WorkingCopyStore.exists_run_writeFiles, WorkingCopyStore.exists_run_removeFiles,
  WorkingCopyStore.Untouched
-/
import PatchShelf.Proofs.Store.Saved
import PatchShelf.Proofs.Store.SavedShelves

/-!
If a map stands behind the directory of shelves, a patch file is found exactly if its
name is in the map, the files of a new name can be written, and those of a known name
removed.  What a program does elsewhere does not matter to the map.
-/

namespace PatchShelf

namespace WorkingCopyStore

/-- What a step on the files of shelves leaves: a sound tree in which all ways go where
they went, and the map. -/
structure ShelfStep (old new : FileTree) (directory : Path) (shelves : SavedShelves) : Prop where
  sound : new.Sound
  keeps : FileTree.KeepsWays old new
  represents : Represents new directory shelves

variable {machine : Machine} {directory : Path} {place : Location} {shelves : SavedShelves}
  {name : Text}

/-! ### Looking for a patch -/

theorem reads_existingPatch (directory : Path) (name : Text) :
    Effect.Reads (existingPatch directory name) := by
  refine .bind (.ofChecked _) fun path => ?_
  refine .bind (Machine.reads_access _) fun there => ?_
  cases there with
  | true => exact .pure _
  | false => exact .fail _

/-- A patch file that is found lies in the directory of shelves. -/
theorem exists_of_existingPatch {machine : Machine} {directory path : Path} {name : Text}
    (found : ((existingPatch directory name).run machine).result = .ok path) :
    ∃ stem, IsStem directory name stem ∧ path = directory.child (stem ++ Shelf.patchSuffix) ∧
      machine.tree.isFile machine.directory path = .ok true := by
  rw [existingPatch, (Effect.Reads.ofChecked _).run_bind, Effect.run_ofChecked] at found
  cases named : shelfFile directory name Shelf.patchSuffix with
  | error failure =>
      rw [named] at found
      cases found
  | ok given =>
      rw [named] at found
      simp only [mapError_ok] at found
      rw [(Machine.reads_access _).run_bind, Machine.run_access] at found
      cases asked : machine.tree.isFile machine.directory given with
      | error fault =>
          rw [asked] at found
          cases found
      | ok there =>
          rw [asked] at found
          cases there with
          | false => cases found
          | true =>
              obtain rfl := Except.ok.inj found
              obtain ⟨stem, isStem, shown⟩ := exists_isStem isSuffix_patch named
              exact ⟨stem, isStem, shown, asked⟩

/-- What the path of a patch file leads to is the file of the map. -/
theorem Represents.probe_patch {tree : FileTree} (represents : Represents tree directory shelves)
    (absolute : directory.isAbsolute = true) (shelfName : ShelfName directory name)
    (base : Location) :
    ∃ modified, tree.probe base (directory.child (name ++ Shelf.patchSuffix)) =
      .ok ((shelves.get? name).map fun shelf => .file (Utf8.encode shelf.patch) modified) := by
  have path := shelfName.patchPath absolute
  cases represents with
  | vacant vacant empty =>
      refine ⟨.epoch, ?_⟩
      rw [vacant.probe_child path, empty]
      rfl
  | held place holds =>
      rw [path.probe holds.leads base (holds.noLink _)]
      cases known : shelves.get? name with
      | none =>
          refine ⟨.epoch, ?_⟩
          rw [show tree.get? (Utf8.encode (name ++ Shelf.patchSuffix) :: place) = none from
            (holds.free shelfName known).1]
          rfl
      | some shelf =>
          obtain ⟨modified, stands⟩ := holds.patch name shelf known
          refine ⟨modified, ?_⟩
          rw [show tree.get? (Utf8.encode (name ++ Shelf.patchSuffix) :: place) = _ from stands]
          rfl

theorem Represents.isPresent_patch {tree : FileTree}
    (represents : Represents tree directory shelves) (absolute : directory.isAbsolute = true)
    (shelfName : ShelfName directory name) (base : Location) :
    tree.isPresent base (directory.child (name ++ Shelf.patchSuffix)) =
      .ok (shelves.contains name) := by
  obtain ⟨modified, probed⟩ := represents.probe_patch absolute shelfName base
  rw [FileTree.isPresent, probed, Dictionary.contains]
  cases shelves.get? name with
  | none => rfl
  | some shelf => rfl

theorem Represents.isFile_patch {tree : FileTree}
    (represents : Represents tree directory shelves) (absolute : directory.isAbsolute = true)
    (shelfName : ShelfName directory name) (base : Location) :
    tree.isFile base (directory.child (name ++ Shelf.patchSuffix)) =
      .ok (shelves.contains name) := by
  obtain ⟨modified, probed⟩ := represents.probe_patch absolute shelfName base
  rw [FileTree.isFile, probed, Dictionary.contains]
  cases shelves.get? name with
  | none => rfl
  | some shelf => rfl

/-- Only names whose paths the system takes are in the map. -/
theorem Represents.shelfName {tree : FileTree} (represents : Represents tree directory shelves)
    (known : shelves.contains name = true) : ShelfName directory name := by
  obtain ⟨shelf, found⟩ := Option.isSome_iff_exists.1 known
  cases represents with
  | vacant vacant empty => simp [empty name] at found
  | held place holds => exact holds.named name shelf found

/-- A patch is found if its name is in the map, and only then. -/
theorem existingPatch_cases (represents : Represents machine.tree directory shelves)
    (absolute : directory.isAbsolute = true) (kept : KeptName name) :
    (shelves.contains name = false ∧ ∃ reason,
      (existingPatch directory name).run machine = ⟨.error reason, machine, []⟩) ∨
    (shelves.contains name = true ∧ (existingPatch directory name).run machine =
      ⟨.ok (directory.child (name ++ Shelf.patchSuffix)), machine, []⟩) := by
  rw [existingPatch, kept.shelfFile directory isSuffix_patch, (Effect.Reads.ofChecked _).run_bind,
    Effect.run_ofChecked]
  simp only [mapError_ok]
  rw [(Machine.reads_access _).run_bind, Machine.run_access]
  cases known : shelves.contains name with
  | true =>
      refine .inr ⟨rfl, ?_⟩
      rw [represents.isFile_patch absolute (represents.shelfName known), known]
      rfl
  | false =>
      refine .inl ⟨rfl, ?_⟩
      cases asked : machine.tree.isFile machine.directory
          (directory.child (name ++ Shelf.patchSuffix)) with
      | error fault => exact ⟨_, rfl⟩
      | ok answer =>
          cases answer with
          | false => exact ⟨_, rfl⟩
          | true =>
              -- A file that is found would be one of the map.
              have fits := FileTree.fits_of_isFile asked
              rw [represents.isFile_patch absolute ⟨kept, fits⟩, known] at asked
              cases asked

theorem Represents.read_patch {tree : FileTree}
    (represents : Represents tree directory shelves)
    (absolute : directory.isAbsolute = true) (shelfName : ShelfName directory name)
    {shelf : SavedShelf} (known : shelves.get? name = some shelf) (base : Location) :
    tree.read base (directory.child (name ++ Shelf.patchSuffix)) =
      .ok (Utf8.encode shelf.patch) := by
  cases represents with
  | vacant vacant empty =>
      rw [empty name] at known
      cases known
  | held place holds =>
      obtain ⟨modified, stands⟩ := holds.patch name shelf known
      exact (shelfName.patchPath absolute).read_file holds.leads base stands

/-! ### What programs do elsewhere -/

/-- The directory of shelves is left alone, and not made when it is missing. -/
structure Untouched (directory : Path) (old new : FileTree) : Prop extends
    Undisturbed directory old new where
  vacant : old.Vacant directory → new.Vacant directory

theorem Represents.untouched {old new : FileTree} (represents : Represents old directory shelves)
    (aside : Untouched directory old new) : Represents new directory shelves := by
  cases represents with
  | vacant vacant empty => exact .vacant (aside.vacant vacant) empty
  | held place holds =>
      exact .held place
        (holds.congr ((aside.leads place).2 holds.leads) (aside.content place holds.leads))

/-! ### Writing the files of a new shelf -/

/-- The directory is there, or is made. -/
theorem exists_run_makeDirectories (represents : Represents machine.tree directory shelves)
    (absolute : directory.isAbsolute = true) (sound : machine.tree.Sound) :
    ∃ base place,
      (Machine.makeDirectories directory.anchor directory.parts.reverse).run machine =
        ⟨.ok (), machine.withTree base, []⟩ ∧
      base.Sound ∧ FileTree.KeepsWays machine.tree base ∧
      HoldsShelves base directory place shelves := by
  have anchored : directory.anchor ≠ .relative := by simpa [Path.isAbsolute] using absolute
  have same : (⟨directory.anchor, directory.parts.reverse.reverse⟩ : Path) = directory := by
    rw [List.reverse_reverse]
  cases represents with
  | held place holds =>
      refine ⟨machine.tree, place, ?_, sound, .refl _, holds⟩
      exact Machine.run_makeDirectories_of_leads anchored (same ▸ holds.leads)
  | vacant vacant empty =>
      have succeeded := Machine.result_makeDirectories_of_vacant sound (same ▸ vacant)
      have silent := Machine.silent_makeDirectories directory.anchor directory.parts.reverse machine
      have made :=
        Machine.DirectoriesMade.ofMakeDirectories anchored directory.parts.reverse sound
      rw [same] at made
      obtain ⟨place, leads, origin⟩ := made.leads vacant.names succeeded
      have bare := origin.resolve_left (vacant.not_leads place)
      refine ⟨_, place, ?_, made.sound, made.grown.keepsWays, .of_each leads ?_ ?_⟩
      · rw [← made.others, ← succeeded, ← silent]
      · intro name shelf known
        simp [empty name] at known
      · intro fileName stands
        exact absurd (bare fileName) stands

/-- The files of a new name are written. -/
theorem exists_run_writeFiles (represents : Represents machine.tree directory shelves)
    (absolute : directory.isAbsolute = true) (sound : machine.tree.Sound)
    (shelfName : ShelfName directory name) (absent : shelves.get? name = none)
    (patch : Text) (message : Option Text) :
    ∃ new, (writeFiles directory (directory.child (name ++ Shelf.patchSuffix))
        (directory.child (name ++ Shelf.logSuffix)) (Utf8.encode patch)
        (message.map Utf8.encode)).run machine = ⟨.ok (), machine.withTree new, []⟩ ∧
      ShelfStep machine.tree new directory (shelves.insert name ⟨patch, message⟩) := by
  obtain ⟨base, place, made, valid, grown, holds⟩ :=
    exists_run_makeDirectories represents absolute sound
  obtain ⟨freePatch, freeLog⟩ := holds.free shelfName absent
  have patchPath := shelfName.patchPath absolute
  have logPath := shelfName.logPath absolute
  have first := patchPath.write_missing holds.leads machine.directory freePatch machine.clock
    (Utf8.encode patch)
  have keeps := FileTree.keepsWays_put (.file (Utf8.encode patch) machine.clock)
    (FileTree.noWay_of_none freePatch)
  have takes := holds.takesShelf absolute shelfName absent (message.map Utf8.encode)
  have inserted := holds.putFiles absolute shelfName absent machine.clock patch message
  refine ⟨_, ?_, takes.sound valid absolute patchPath.name logPath.name holds.leads _ _,
    grown.trans (takes.keepsWays _ _), .held place inserted⟩
  · rw [writeFiles_eq, Effect.run_bind, made]
    simp only
    rw [writeBoth.eq_def, Effect.run_bind, Machine.run_writeFile]
    simp only [Machine.tree_withTree, Machine.directory_withTree, Machine.clock_withTree, first]
    cases message with
    | none => rfl
    | some text =>
        have later : (base.put (patchAt place name)
            (.file (Utf8.encode patch) machine.clock)).get?
              (Utf8.encode (name ++ Shelf.logSuffix) :: place) = none := by
          rw [FileTree.get?_put _ _ _ _ (patchAt_ne_root place name)]
          exact (if_neg (patchAt_ne_logAt place name name).symm).trans freeLog
        have second := logPath.write_missing (holds.leads.of_keepsWays keeps absolute)
          machine.directory later machine.clock (Utf8.encode text)
        rw [Option.map_some]
        simp only
        rw [Machine.run_writeFile]
        simp only [Machine.tree_withTree, Machine.directory_withTree, Machine.clock_withTree,
          patchAt] at second ⊢
        rw [second]
        rfl

/-! ### Removing the files of a shelf -/

theorem exists_run_removeFiles (represents : Represents machine.tree directory shelves)
    (absolute : directory.isAbsolute = true) (sound : machine.tree.Sound)
    (shelfName : ShelfName directory name) {shelf : SavedShelf}
    (known : shelves.get? name = some shelf) :
    ∃ new, (removeFiles directory (directory.child (name ++ Shelf.patchSuffix)) name).run machine =
        ⟨.ok (), machine.withTree new, []⟩ ∧
      ShelfStep machine.tree new directory (shelves.erase name) := by
  cases represents with
  | vacant vacant empty =>
      rw [empty name] at known
      cases known
  | held place holds =>
      have held := holds.holdsShelf known
      obtain ⟨modified, stands⟩ := held.patch
      have patchPath := shelfName.patchPath absolute
      have logPath := shelfName.logPath absolute
      have unlinked := patchPath.unlink_file holds.leads machine.directory stands
      have noWay := FileTree.noWay_of_file stands
      have keeps := FileTree.keepsWays_remove noWay
      let between := machine.withTree (machine.tree.remove (patchAt place name))
      have leads : between.tree.Leads directory place := holds.leads.of_keepsWays keeps absolute
      have left (location : Location) : between.tree.get? location =
          if location = patchAt place name then none else machine.tree.get? location :=
        FileTree.get?_remove _ _ _ (patchAt_ne_root place name)
      have logLeft : between.tree.get? (logAt place name) =
          machine.tree.get? (logAt place name) := by
        rw [left, if_neg (patchAt_ne_logAt place name name).symm]
      obtain ⟨new, ran, valid, grown, gone⟩ :=
        exists_run_unlinkIfPresent logPath leads (sound.remove noWay)
          fun entry shown => held.log_isFile (logLeft.symm.trans shown)
      refine ⟨new, ?_, valid, keeps.trans grown,
        .held place (holds.erase shelfName (leads.of_keepsWays grown absolute) fun fileName => ?_)⟩
      · rw [run_removeFiles_of_unlinked unlinked (shelfName.shelfFile _ isSuffix_log)]
        exact ran
      · have whole : new.get? (fileName :: place) =
            if fileName :: place = logAt place name then none
            else between.tree.get? (fileName :: place) := gone _
        rw [whole, left]
        by_cases isLog : fileName :: place = logAt place name
        · simp [isLog]
        · simp [isLog]

end WorkingCopyStore

end PatchShelf
