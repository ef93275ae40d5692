/-
Module: PatchShelf.Proofs.Store.Removal
Purpose: What a removal that fails leaves of a shelf.
Main exports:
  WorkingCopyStore.LogBlocks, WorkingCopyStore.delete_stopped, WorkingCopyStore.apply_stopped,
  WorkingCopyStore.HalfRemoved, WorkingCopyStore.halfRemoved_iff_of_stopped
-/
import PatchShelf.Proofs.Store.Refinement
import PatchShelf.Proofs.Store.SameEntries

/-!
A shelf is taken away by deleting its patch file and then its log file, at the end of an
application as well.  The patch file can always be deleted once it was found.  What can
fail is the second step, and only if a directory bears the name of the log file.  Then the
patch file is gone already; every other failure comes before the first step.
-/

namespace PatchShelf

/-- The shelf that a call is to take away, and the path from which it looks for the working
copy. -/
def StoreCall.removal? : StoreCall → Option (Text × Text)
  | list _ => none
  | create _ => none
  | delete name root _ => some (name, root)
  | apply name root _ _ => some (name, root)

namespace WorkingCopyStore

open Activity (calls)

/-! ### The two steps of a removal -/

/-- A shelf of which only a half can be taken away: its patch file is there, but a directory
bears the name of its log file. -/
structure LogBlocks (tree : FileTree) (directory : Path) (name stem : Text) (place : Location) :
    Prop where
  isStem : IsStem directory name stem
  absolute : directory.isAbsolute = true
  leads : tree.Leads directory place
  dead : tree.DeadEnd (patchAt place stem)
  patch : tree.get? (patchAt place stem) ≠ none
  log : tree.get? (logAt place stem) = some .directory

/-- The patch file is taken away first, and only a directory stops what follows. -/
theorem removeFiles_stopped {machine : Machine} {directory : Path} {name stem : Text}
    (isStem : IsStem directory name stem) (absolute : directory.isAbsolute = true)
    (isFile : machine.tree.isFile machine.directory
      (directory.child (stem ++ Shelf.patchSuffix)) = .ok true) {reason : Stop}
    (stopped : ((removeFiles directory (directory.child (stem ++ Shelf.patchSuffix)) name).run
      machine).result = .error reason) :
    ∃ place, LogBlocks machine.tree directory name stem place ∧
      ((removeFiles directory (directory.child (stem ++ Shelf.patchSuffix)) name).run
        machine).world = machine.withTree (machine.tree.remove (patchAt place stem)) := by
  have patchName := isSuffix_patch.isEntryName isStem.whole
  have below : (directory.child (stem ++ Shelf.patchSuffix)).isAbsolute = true := absolute
  obtain ⟨location, content, modified, located⟩ := FileTree.exists_of_isFile isFile
  rw [FileTree.locate_base machine.tree machine.directory .target below] at located
  obtain ⟨place, leads⟩ :=
    FileTree.exists_leads_of_locate_child absolute patchName located
  obtain ⟨patchPath, dead, there⟩ := FileTree.deadEnd_of_isFile absolute patchName leads isFile
  have logPath := entryPath_log isStem.whole isStem.noNull patchPath
  have unlinked : machine.tree.unlink machine.directory
      (directory.child (stem ++ Shelf.patchSuffix)) =
        .ok (machine.tree.remove (patchAt place stem)) := by
    rw [FileTree.unlink, patchPath.locate leads _ .entry (.inl rfl)]
    cases stands : machine.tree.get? (Utf8.encode (stem ++ Shelf.patchSuffix) :: place) with
    | none => exact absurd stands there
    | some entry =>
        rw [FileTree.spotIn_of_some stands]
        cases entry with
        | directory => exact absurd stands dead.noDirectory
        | file content modified => rfl
        | link target => rfl
  have stays : (machine.tree.remove (patchAt place stem)).Leads directory place :=
    (dead.leads_remove_iff absolute).2 leads
  have logKept : (machine.tree.remove (patchAt place stem)).get? (logAt place stem) =
      machine.tree.get? (logAt place stem) := by
    rw [FileTree.get?_remove _ _ _ (patchAt_ne_root place stem),
      if_neg (patchAt_ne_logAt place stem stem).symm]
  refine ⟨place, ?_⟩
  rw [run_removeFiles_of_unlinked unlinked (isStem.shelfFile _ isSuffix_log)] at stopped ⊢
  simp only [Machine.run_unlinkIfPresent, Machine.tree_withTree,
    Machine.directory_withTree] at stopped ⊢
  -- What stands under the name of the log file decides.
  cases stands : (machine.tree.remove (patchAt place stem)).get? (logAt place stem) with
  | none =>
      rw [logPath.unlink_missing stays _ stands] at stopped
      cases stopped
  | some entry =>
      have ended := logPath.locate stays machine.directory .entry (.inl rfl)
      rw [FileTree.spotIn_of_some stands] at ended
      rw [FileTree.unlink, ended] at stopped ⊢
      cases entry with
      | file content modified => cases stopped
      | link target => cases stopped
      | directory =>
          exact ⟨⟨isStem, absolute, leads, dead, there, logKept.symm.trans stands⟩, rfl⟩

/-! ### Where a removal stops -/

/-- What a removal leaves that stops: the machine as it was, or a shelf without its patch
file. -/
def LeavesHalf (settings : WorkingCopyStore) (name root : Text) (machine after : Machine) : Prop :=
  ∃ found stem place, ((findRoot root).run machine).result = .ok found ∧
    LogBlocks machine.tree (settings.shelvesPath found) name stem place ∧
    after = machine.withTree (machine.tree.remove (patchAt place stem))

theorem delete_stopped {settings : WorkingCopyStore} {name root : Text} {dryRun : Bool}
    {machine : Machine} (sound : machine.Sound) {reason : Stop}
    (stopped : ((settings.delete name root dryRun).run machine).result = .error reason) :
    ((settings.delete name root dryRun).run machine).world = machine ∨
      settings.LeavesHalf name root machine
        ((settings.delete name root dryRun).run machine).world := by
  rw [delete, (reads_findRoot root).run_bind] at stopped ⊢
  cases rooted : ((findRoot root).run machine).result with
  | error why => exact .inl rfl
  | ok found =>
      rw [rooted] at stopped
      simp only at stopped ⊢
      rw [(reads_existingPatch _ _).run_bind] at stopped ⊢
      cases looked : ((existingPatch (settings.shelvesPath found) name).run machine).result with
      | error why => exact .inl rfl
      | ok path =>
          obtain ⟨stem, isStem, rfl, isFile⟩ := exists_of_existingPatch looked
          obtain ⟨location, rfl, -⟩ := isRoot_of_findRoot sound rooted
          have absolute := isAbsolute_shelvesPath settings location
          rw [looked] at stopped
          simp only at stopped ⊢
          cases dryRun with
          | true => cases stopped
          | false =>
              simp only [Bool.false_eq_true, if_false] at stopped ⊢
              rw [Effect.run_bind, run_explaining] at stopped ⊢
              cases removed : ((removeFiles (settings.shelvesPath location.toPath)
                  ((settings.shelvesPath location.toPath).child (stem ++ Shelf.patchSuffix))
                  name).run machine).result with
              | ok done =>
                  rw [removed] at stopped
                  cases stopped
              | error why =>
                  obtain ⟨place, blocks, left⟩ :=
                    removeFiles_stopped isStem absolute isFile removed
                  refine .inr ⟨location.toPath, stem, place, rooted, blocks, ?_⟩
                  rw [removed] at stopped
                  cases reworded : worded ("Can't delete shelf '" ++ name ++ "'")
                      (Except.error why : Except Stop Unit) with
                  | ok done =>
                      rw [reworded] at stopped
                      cases stopped
                  | error shown => exact left

theorem finishApply_stopped {settings : WorkingCopyStore} {found path : Path} {name : Text}
    {kept : Bool} {machine : Machine} (sound : machine.Sound) {reason : Stop}
    (stopped : ((settings.finishApply found path name kept).run machine).result = .error reason) :
    ((settings.finishApply found path name kept).run machine).world = machine ∨
      settings.LeavesHalf name found.toText machine
        ((settings.finishApply found path name kept).run machine).world := by
  rw [finishApply, Effect.run_bind, run_explaining, Machine.run_access] at stopped ⊢
  cases reworded : worded ("Can't read shelf '" ++ name ++ "'")
      ((machine.tree.read machine.directory path).mapError Stop.fault) with
  | error why => exact .inl rfl
  | ok content =>
      rw [reworded] at stopped
      simp only [Effect.run_bind, Effect.run_emitAll] at stopped ⊢
      cases kept with
      | true => cases stopped
      | false =>
          simp only [Bool.false_eq_true, if_false] at stopped ⊢
          exact delete_stopped sound stopped

/-- Applying stops before the client is called, after the call, or in the removal that
follows it. -/
theorem apply_stopped {settings : WorkingCopyStore} {name root : Text} {keepLocal dryRun : Bool}
    {machine : Machine} {reason : Stop}
    (stopped : ((settings.apply name root keepLocal dryRun).run machine).result = .error reason) :
    ((settings.apply name root keepLocal dryRun).run machine).world = machine ∨
      ∃ found stem call, ((findRoot root).run machine).result = .ok found ∧
        IsStem (settings.shelvesPath found) name stem ∧
        call ∈ calls ((settings.apply name root keepLocal dryRun).run machine).events ∧
        call.found = machine.tree ∧ call.left = (machine.afterCall settings.program).tree ∧
        ((machine.afterCall settings.program).Sound →
          ((settings.apply name root keepLocal dryRun).run machine).world =
              machine.afterCall settings.program ∨
            settings.LeavesHalf name found.toText (machine.afterCall settings.program)
              ((settings.apply name root keepLocal dryRun).run machine).world) := by
  rw [apply, (reads_findRoot root).run_bind] at stopped ⊢
  cases rooted : ((findRoot root).run machine).result with
  | error why => exact .inl rfl
  | ok found =>
      rw [rooted] at stopped
      simp only at stopped ⊢
      rw [(reads_existingPatch _ _).run_bind] at stopped ⊢
      cases looked : ((existingPatch (settings.shelvesPath found) name).run machine).result with
      | error why => exact .inl rfl
      | ok path =>
          rw [looked] at stopped
          simp only at stopped ⊢
          rw [Effect.run_bind] at stopped ⊢
          by_cases called : settings.CanRun machine found "patch" (patchArguments path dryRun)
          · obtain ⟨stem, isStem, -, -⟩ := exists_of_existingPatch looked
            rw [run_runClient called] at stopped ⊢
            refine .inr ⟨found, stem, settings.clientCall machine found "patch"
              (patchArguments path dryRun), rfl, isStem, ?_, rfl, rfl, fun sound => ?_⟩
            · cases settings.taken "patch" (settings.reply machine) with
              | error why => simp
              | ok output => simp
            · cases answered : settings.taken "patch" (settings.reply machine) with
              | error why => exact .inl rfl
              | ok output =>
                  rw [answered] at stopped
                  simp only at stopped ⊢
                  exact finishApply_stopped sound stopped
          · obtain ⟨why, unmade⟩ := exists_run_runClient called
            rw [unmade]
            exact .inl rfl

/-! ### What is left of the shelf -/

/-- The directory lost the patch file of a shelf and nothing else, and a directory bears the
name of the log file. -/
structure HalfRemoved (directory : Path) (name stem : Text) (place : Location)
    (old new : FileTree) : Prop where
  isStem : IsStem directory name stem
  leads : old.Leads directory place
  stays : new.Leads directory place
  log : old.get? (logAt place stem) = some .directory
  patch : old.get? (patchAt place stem) ≠ none
  gone : new.get? (patchAt place stem) = none
  others : ∀ entry, entry :: place ≠ patchAt place stem →
    new.get? (entry :: place) = old.get? (entry :: place)

theorem HalfRemoved.not_sameEntries {directory : Path} {name stem : Text} {place : Location}
    {old new : FileTree} (half : HalfRemoved directory name stem place old new) :
    ¬ SameEntries directory old new := by
  intro same
  have kept := (same.kept place half.leads).2 (Utf8.encode (stem ++ Shelf.patchSuffix))
  exact half.patch (kept.symm.trans half.gone)

theorem LogBlocks.halfRemoved {tree : FileTree} {directory : Path} {name stem : Text}
    {place : Location} (blocks : LogBlocks tree directory name stem place) :
    HalfRemoved directory name stem place tree (tree.remove (patchAt place stem)) where
  isStem := blocks.isStem
  leads := blocks.leads
  stays := (blocks.dead.leads_remove_iff blocks.absolute).2 blocks.leads
  log := blocks.log
  patch := blocks.patch
  gone := by rw [FileTree.get?_remove _ _ _ (patchAt_ne_root place stem), if_pos rfl]
  others := by
    intro entry apart
    rw [FileTree.get?_remove _ _ _ (patchAt_ne_root place stem), if_neg apart]

/-- A shelf is half removed after a program that left it alone as if there had been none. -/
theorem HalfRemoved.of_undisturbed {directory : Path} {name stem : Text} {place : Location}
    {old middle new : FileTree} (half : HalfRemoved directory name stem place middle new)
    (aside : Undisturbed directory old middle) :
    HalfRemoved directory name stem place old new := by
  have leads := (aside.leads place).1 half.leads
  refine ⟨half.isStem, leads, half.stays, ?_, ?_, half.gone, ?_⟩
  · exact (aside.content place leads _).symm.trans half.log
  · intro absent
    exact half.patch ((aside.content place leads _).trans absent)
  · intro entry apart
    exact (half.others entry apart).trans (aside.content place leads entry)

/-- Taking a dead end away elsewhere does not touch the directory. -/
theorem sameEntries_remove {tree : FileTree} {directory : Path} {location : Location}
    (absolute : directory.isAbsolute = true) (dead : tree.DeadEnd location)
    (elsewhere : ∀ place, tree.Leads directory place → ∀ entry, entry :: place ≠ location) :
    SameEntries directory tree (tree.remove location) where
  kept := by
    intro place leads
    refine ⟨(dead.leads_remove_iff absolute).2 leads, fun entry => ?_⟩
    rw [FileTree.get?_remove _ _ _ dead.ne_root, if_neg (elsewhere place leads entry)]
  fresh := fun place leads => .inl ((dead.leads_remove_iff absolute).1 leads)

/-- A removal after the client was called touches the shelf that was found before, or another
directory. -/
theorem sameEntries_or_halfRemoved {settings : WorkingCopyStore} {name root : Text}
    {directory : Path} (absolute : directory.isAbsolute = true) {machine after : Machine}
    (half : settings.LeavesHalf name root machine after) {stem : Text}
    (isStem : IsStem directory name stem) :
    SameEntries directory machine.tree after.tree ∨
      ∃ place, HalfRemoved directory name stem place machine.tree after.tree := by
  obtain ⟨found, other, place, -, blocks, rfl⟩ := half
  obtain rfl := Option.some.inj (blocks.isStem.last.symm.trans isStem.last)
  by_cases here : machine.tree.Leads directory place
  · exact .inr ⟨place, LogBlocks.halfRemoved
      ⟨isStem, absolute, here, blocks.dead, blocks.patch, blocks.log⟩⟩
  · refine .inl (sameEntries_remove absolute blocks.dead fun inner leads entry same => ?_)
    obtain ⟨-, rfl⟩ := List.cons.inj same
    exact here leads

/-- A removal that stops leaves the directory of shelves as it was, unless it stopped between
its two steps: then the patch file is gone and a directory stands in the way of the log file. -/
theorem halfRemoved_iff_of_stopped (settings : WorkingCopyStore) (call : StoreCall)
    {name root : Text} (removes : call.removal? = some (name, root)) (machine : Machine)
    (sound : machine.Sound) {reason : Stop}
    (stopped : ((settings.perform call).run machine).result = .error reason) {found : Path}
    (rooted : ((findRoot root).run machine).result = .ok found)
    (aside : ∀ made ∈ calls ((settings.perform call).run machine).events,
      Undisturbed (settings.shelvesPath found) made.found made.left) :
    (∃ stem place, HalfRemoved (settings.shelvesPath found) name stem place machine.tree
        ((settings.perform call).run machine).world.tree) ↔
      ¬ SameEntries (settings.shelvesPath found) machine.tree
        ((settings.perform call).run machine).world.tree := by
  obtain ⟨location, rfl, -⟩ := isRoot_of_findRoot sound rooted
  have absolute := isAbsolute_shelvesPath settings location
  constructor
  · rintro ⟨stem, place, half⟩
    exact half.not_sameEntries
  · intro changed
    cases call with
    | list root => cases removes
    | create request => cases removes
    | delete name root dryRun =>
        obtain ⟨rfl, rfl⟩ := Prod.mk.inj (Option.some.inj removes)
        rw [perform, Effect.run_bind] at stopped changed ⊢
        cases ended : ((settings.delete name root dryRun).run machine).result with
        | ok done =>
            rw [ended] at stopped
            cases stopped
        | error why =>
            rw [ended] at changed
            simp only at changed ⊢
            rcases delete_stopped sound ended with same | half
            · rw [same] at changed
              exact absurd (.refl _ machine.tree) changed
            · obtain ⟨other, stem, place, again, blocks, left⟩ := half
              obtain rfl := Except.ok.inj (rooted.symm.trans again)
              rw [left]
              exact ⟨stem, place, blocks.halfRemoved⟩
    | apply name root keepLocal dryRun =>
        obtain ⟨rfl, rfl⟩ := Prod.mk.inj (Option.some.inj removes)
        rw [perform, Effect.run_bind] at stopped changed aside ⊢
        cases ended : ((settings.apply name root keepLocal dryRun).run machine).result with
        | ok done =>
            rw [ended] at stopped
            cases stopped
        | error why =>
            rw [ended] at changed aside
            simp only at changed aside ⊢
            rcases apply_stopped ended with same | called
            · rw [same] at changed
              exact absurd (.refl _ machine.tree) changed
            · -- The client was called before the removal, and left the directory of shelves alone.
              obtain ⟨other, stem, made, again, isStem, member, before, after, ends⟩ := called
              obtain rfl := Except.ok.inj (rooted.symm.trans again)
              have spared := aside made member
              rw [before, after] at spared
              rcases ends (.afterCall machine settings.program spared.sound) with same | half
              · rw [same] at changed
                exact absurd spared.sameEntries changed
              · rcases sameEntries_or_halfRemoved absolute half isStem with same | ⟨place, half⟩
                · exact absurd (spared.sameEntries.trans same) changed
                · exact ⟨stem, place, half.of_undisturbed spared⟩

/-- The machine with a shelf whose log file is a directory. -/
def blockedMachine : Machine :=
  { plainMachine [] with
    tree := (((plainMachine []).tree.put [Utf8.encode "shelves", Utf8.encode ".svn",
      Utf8.encode "wc"] .directory).put [Utf8.encode "n.patch", Utf8.encode "shelves",
      Utf8.encode ".svn", Utf8.encode "wc"] (.file (Utf8.encode "Index: a\n") .epoch)).put
      [Utf8.encode "n.log", Utf8.encode "shelves", Utf8.encode ".svn", Utf8.encode "wc"]
      .directory }

theorem halfRemoved_of_blocked :
    ((plainSettings.perform (.delete "n" "/wc" false)).run blockedMachine).result =
        .error (.failure (ShelfStore.failure
          "Can't delete shelf 'n': [Errno 21] Is a directory: '/wc/.svn/shelves/n.log'")) ∧
      ∃ stem place, HalfRemoved plainDirectory "n" stem place blockedMachine.tree
        ((plainSettings.perform (.delete "n" "/wc" false)).run blockedMachine).world.tree := by
  have stopped : ((plainSettings.perform (.delete "n" "/wc" false)).run blockedMachine).result =
      .error (.failure (ShelfStore.failure
        "Can't delete shelf 'n': [Errno 21] Is a directory: '/wc/.svn/shelves/n.log'")) := by
    decide +kernel
  have rooted : ((findRoot "/wc").run blockedMachine).result = .ok ⟨.root, ["wc"]⟩ := by
    decide +kernel
  have silent : ((plainSettings.perform (.delete "n" "/wc" false)).run blockedMachine).events =
      [] := by decide +kernel
  refine ⟨stopped, (halfRemoved_iff_of_stopped plainSettings (.delete "n" "/wc" false) rfl
    blockedMachine ⟨by decide +kernel, fun _ => rfl⟩ stopped rooted ?_).2 ?_⟩
  · rw [silent]
    exact nofun
  · intro same
    -- The patch file was there, and is not there any more.
    have leads : blockedMachine.tree.locate [] .target plainDirectory =
        .ok (.found [Utf8.encode "shelves", Utf8.encode ".svn", Utf8.encode "wc"]
          .directory) := by decide +kernel
    have kept := (same.kept _ leads).2 (Utf8.encode "n.patch")
    exact absurd kept (by decide +kernel)

end WorkingCopyStore

end PatchShelf
