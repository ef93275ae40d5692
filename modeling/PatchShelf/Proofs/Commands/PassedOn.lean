/-
Module: PatchShelf.Proofs.Commands.PassedOn
Purpose: The names that a listing shows, passed on to the command that applies shelves.
Main exports:
  Commands.PassedOn, Commands.Appliable, Commands.Locates.passedOn_iff,
  Commands.passedOn_iff_appliable
-/
import PatchShelf.Proofs.Commands.FoundAgain
import PatchShelf.Proofs.Store.ListedFiles

/-!
A listing shows each entry of the directory of shelves that ends like a patch file, unless
nothing stands before the end.  Applying a shelf is pickier: the name must pass the checks for
arguments, and the entry must be a file.  So a listed name can be passed on exactly if it
passes both.
-/

namespace PatchShelf

namespace Arguments

/-- A name that is not blank, holds no stray bytes and fits into a file name is taken. -/
theorem takeName_iff {name : Text} (filled : name.isBlank = false) :
    takeName [.text name] = .ok (name, []) ↔ name.hasRaw = false ∧ fitsFileName name = true := by
  constructor
  · intro taken
    obtain ⟨clean, accepted, -⟩ := of_takeName taken
    refine ⟨clean, Bool.not_eq_false _ ▸ fun misfit => ?_⟩
    rw [checkShelfName, filled, misfit] at accepted
    cases accepted
  · rintro ⟨clean, fits⟩
    refine takeName_text clean ?_
    rw [checkShelfName, filled, fits]
    rfl

end Arguments

namespace Commands

open CommandLine (backendOf)
open WorkingCopyStore (IsShelfKey KeptPatch exists_of_existingPatch findRoot mem_calls_apply_iff
  patchArguments)

/-- The listed name passes the checks for arguments, and to apply it the client is called with
the patch file of its record, and with nothing else. -/
structure PassedOn (settings : Settings) (surroundings : Surroundings) (options : Options)
    (key : Text) (record : ShelfRecord) (session : Session Machine) : Prop where
  taken : Arguments.takeName [.text (Shelf.nameOf key)] = .ok (Shelf.nameOf key, [])
  applied : PutBack settings surroundings options (Shelf.nameOf key)
    (Path.ofText record.patchPath) session
  alone : ∀ call ∈ Session.ranCalls ((unshelve (backendOf settings) surroundings
      [.text (Shelf.nameOf key)] options).run session).events,
    call.program = settings.program ∧ call.arguments =
      ("patch" : Text) :: patchArguments (Path.ofText record.patchPath) options.dryRun

/-- The listed name is text that fits into a file name, what stands there under it is a file,
and the client can be called. -/
structure Appliable (settings : Settings) (key : Text) (record : ShelfRecord)
    (machine : Machine) : Prop where
  clean : (Shelf.nameOf key).hasRaw = false
  fits : Arguments.fitsFileName (Shelf.nameOf key) = true
  file : machine.tree.isFile machine.directory (Path.ofText record.patchPath) = .ok true
  callable : machine.Callable settings.program

/-- A record tells where in the working copy of a command the file of its key is. -/
structure Locates (settings : Settings) (surroundings : Surroundings) (root : Text) (found : Path)
    (key : Text) (record : ShelfRecord) (machine : Machine) : Prop where
  located : surroundings.root = .ok root
  rooted : ((findRoot root).run machine).result = .ok found
  isKey : IsShelfKey key
  pathed : Path.ofText record.patchPath = ((storeOf settings).shelvesPath found).child key

namespace Locates

variable {settings : Settings} {later : Surroundings} {again : Options} {next : Session Machine}
  {root key : Text} {found : Path} {record : ShelfRecord}

/-- The path is the one that the name of the key stands for. -/
theorem named (locates : Locates settings later root found key record next.world) :
    Path.ofText record.patchPath =
      ((storeOf settings).shelvesPath found).child (Shelf.nameOf key ++ Shelf.patchSuffix) :=
  locates.pathed.trans (congrArg _ locates.isKey.keyOf_nameOf.symm)

/-- To apply the name, the client is only called with the file, and if this is one. -/
theorem of_mem_ranCalls (locates : Locates settings later root found key record next.world)
    (taken : Arguments.takeName [.text (Shelf.nameOf key)] = .ok (Shelf.nameOf key, []))
    (applies : again.listOnly = false) (sole : again.extraTargets = []) {call : ProgramCall}
    (made : call ∈ Session.ranCalls ((unshelve (backendOf settings) later
      [.text (Shelf.nameOf key)] again).run next).events) :
    next.world.tree.isFile next.world.directory (Path.ofText record.patchPath) = .ok true ∧
      next.world.Callable settings.program ∧ call.program = settings.program ∧
      call.arguments = ("patch" : Text) ::
        patchArguments (Path.ofText record.patchPath) again.dryRun := by
  obtain ⟨-, accepted, -⟩ := Arguments.of_takeName taken
  rw [ranCalls_unshelve next locates.located taken applies sole, mem_calls_apply_iff] at made
  obtain ⟨other, path, rooted, looked, can, rfl⟩ := made
  obtain rfl := Except.ok.inj (locates.rooted.symm.trans rooted)
  obtain ⟨stem, isStem, rfl, isFile⟩ := exists_of_existingPatch looked
  obtain rfl := isStem.eq_of_whole (WorkingCopyStore.whole_of_checkShelfName accepted)
  rw [locates.named]
  exact ⟨isFile, ⟨_, _, can⟩, rfl, rfl⟩

/-- If the name is taken and stands for a file, the file is a patch kept under it. -/
theorem putBack (locates : Locates settings later root found key record next.world)
    (sound : next.world.Sound)
    (taken : Arguments.takeName [.text (Shelf.nameOf key)] = .ok (Shelf.nameOf key, []))
    (applies : again.listOnly = false) (sole : again.extraTargets = [])
    (appliable : Appliable settings key record next.world) :
    PutBack settings later again (Shelf.nameOf key) (Path.ofText record.patchPath) next := by
  have rooted := locates.rooted
  have named := locates.named
  obtain ⟨location, rfl, isRoot⟩ := WorkingCopyStore.isRoot_of_findRoot sound rooted
  have absolute := WorkingCopyStore.isAbsolute_shelvesPath (storeOf settings) location
  have parts : ∀ part ∈ ((storeOf settings).shelvesPath location.toPath).parts,
      Path.IsPart part := WorkingCopyStore.isPart_of_mem_shelvesPath sound.tree isRoot
  obtain ⟨-, accepted, -⟩ := Arguments.of_takeName taken
  have file := appliable.file
  rw [named] at file ⊢
  have below : (((storeOf settings).shelvesPath location.toPath).child
      (Shelf.nameOf key ++ Shelf.patchSuffix)).isAbsolute = true := absolute
  obtain ⟨place, content, moment, there⟩ := FileTree.exists_of_isFile file
  rw [FileTree.locate_base next.world.tree next.world.directory .target below] at there
  have kept : KeptPatch (storeOf settings) _ moment next.world :=
    ⟨sound, ⟨place, content, there⟩, appliable.callable⟩
  have shelf := kept.shelfName absolute accepted appliable.clean
  exact (putBack_iff_finds later again next kept shelf absolute parts taken applies sole).2
    ⟨root, locates.located, _, rooted, rfl⟩

/-- A located name can be passed on exactly if what stands there can be applied under it. -/
theorem passedOn_iff (locates : Locates settings later root found key record next.world)
    (sound : next.world.Sound) (applies : again.listOnly = false)
    (sole : again.extraTargets = []) :
    PassedOn settings later again key record next ↔
      Appliable settings key record next.world := by
  have filled := locates.isKey.filled
  constructor
  · intro passed
    obtain ⟨clean, fits⟩ := (Arguments.takeName_iff filled).1 passed.taken
    obtain ⟨call, made, -⟩ := passed.applied
    obtain ⟨file, callable, -⟩ := locates.of_mem_ranCalls passed.taken applies sole made
    exact ⟨clean, fits, file, callable⟩
  · intro appliable
    have taken := (Arguments.takeName_iff filled).2 ⟨appliable.clean, appliable.fits⟩
    exact ⟨taken, locates.putBack sound taken applies sole appliable,
      fun call made => (locates.of_mem_ranCalls taken applies sole made).2.2⟩

end Locates

/-- A listing that goes well has been given records. -/
theorem exists_records_of_shelves {σ : Type} {backend : Backend σ} {surroundings : Surroundings}
    {options : Options} {session : Session σ}
    (succeeded : ((shelves backend surroundings [] options).run session).result = .ok ()) :
    ∃ root records, surroundings.root = .ok root ∧
      ((backend.store.list root).run session.world).result = .ok records := by
  cases located : surroundings.root with
  | error fault =>
      rw [shelves, located] at succeeded
      cases succeeded
  | ok root =>
      rw [run_shelves located, listShelves] at succeeded
      obtain ⟨entries, ordered, -⟩ := Effect.exists_of_run_bind_ok succeeded
      rw [inOrder] at ordered
      obtain ⟨records, listed, -⟩ := Effect.exists_of_run_bind_ok ordered
      exact ⟨root, records, rfl, listed⟩

/-- A listing that goes well shows every record of the store.  The name of each of them can be
passed on from the same directory exactly if it is a shelf name, and that of a file, and the
client can be called. -/
theorem passedOn_iff_appliable (settings : Settings) (surroundings : Surroundings)
    (options : Options) (session : Session Machine) (sound : session.world.Sound)
    (succeeded :
      ((shelves (backendOf settings) surroundings [] options).run session).result = .ok ()) :
    ∃ root records, surroundings.root = .ok root ∧
      (((storeOf settings).list root).run session.world).result = .ok records ∧
      ∀ key record, records.get? key = some record →
        .printed (Listing.entryText key record surroundings.now) ∈
            ((shelves (backendOf settings) surroundings [] options).run session).events ∧
          ∀ (later : Surroundings) (again : Options) (next : Session Machine),
            later.directory = surroundings.directory →
            next.world.tree = session.world.tree →
            next.world.directory = session.world.directory →
            again.listOnly = false → again.extraTargets = [] →
            (PassedOn settings later again key record next ↔
              Appliable settings key record next.world) := by
  obtain ⟨root, records, located, listed⟩ := exists_records_of_shelves succeeded
  refine ⟨root, records, located, listed, fun key record known => ⟨?_, ?_⟩⟩
  · -- A listing with records goes well only if the program for summaries can be called.
    have summarizable : settings.diffstatProgram.holds '\x00' = false := by
      refine Bool.eq_false_iff.2 fun null => ?_
      obtain ⟨reason, stopped⟩ := exists_stop_of_listShelves listed known
        (fun path world => ⟨_, DiffStat.result_summarize_of_null null path world⟩)
        surroundings.now
      rw [run_shelves located, stopped] at succeeded
      cases succeeded
    have summarized : Summarized (backendOf settings) records := fun key record known => by
      obtain ⟨_, _, -, -, -, recorded⟩ := WorkingCopyStore.exists_of_list_ok listed known
      exact DiffStat.exists_summary summarizable recorded.noNull
    exact (printed_of_shelves located listed summarized options).2 key record known
  · intro later again next stays sameTree sameDirectory applies sole
    obtain ⟨found, rooted, isKey, pathed⟩ :=
      WorkingCopyStore.ofText_patchPath sound listed known
    have standing : next.world.Sound := by
      refine ⟨sameTree ▸ sound.tree, ?_⟩
      rw [sameTree, sameDirectory]
      exact sound.standing
    have refound : ((findRoot root).run next.world).result = .ok found := by
      rw [WorkingCopyStore.result_findRoot_eq sameTree sameDirectory, rooted]
    have inside : later.root = .ok root := by
      rw [Surroundings.root, stays]
      exact located
    have locates : Locates settings later root found key record next.world :=
      ⟨inside, refound, isKey, pathed⟩
    exact locates.passedOn_iff standing applies sole

/-- A machine that works in `/wc`, with one file among the shelves. -/
def oneShelfMachine (name : Text) : Machine :=
  machineWith (Shelf.keyOf name) (.file (Utf8.encode "Index: a\n") .epoch) id

/-- The record that a listing has of that file. -/
def loneRecord (name : Text) (named : name.isBlank = false) : ShelfRecord :=
  ⟨name, "/wc/.svn/shelves/" ++ Shelf.keyOf name, .epoch, 9, [], named⟩

/-- The name of the file can be passed on. -/
def LonePassedOn (name : Text) (named : name.isBlank = false) : Prop :=
  PassedOn usualSettings (surroundingsOn (oneShelfMachine name)) {} (Shelf.keyOf name)
    (loneRecord name named) (sessionOn (oneShelfMachine name))

/-- The listing goes well, and has that record only. -/
structure ListedAlone (name : Text) (named : name.isBlank = false) : Prop where
  sound : (oneShelfMachine name).Sound
  ended : ((shelves (backendOf usualSettings) (surroundingsOn (oneShelfMachine name)) [] {}).run
    (sessionOn (oneShelfMachine name))).result = .ok ()
  root : (surroundingsOn (oneShelfMachine name)).root = .ok "/wc"
  listed : (((storeOf usualSettings).list "/wc").run (oneShelfMachine name)).result =
    .ok (Dictionary.ofList [(Shelf.keyOf name, loneRecord name named)])

/-- An ordinary name is passed on, but a dot is not, though it is listed as well. -/
theorem passedOn_of_plain_not_of_dot :
    LonePassedOn "n" (by decide) ∧ ¬ LonePassedOn "." (by decide) := by
  have passedOn_iff {name : Text} {named : name.isBlank = false} (alone : ListedAlone name named)
      (only : (Dictionary.ofList [(Shelf.keyOf name, loneRecord name named)]).get?
        (Shelf.keyOf name) = some (loneRecord name named)) :
      LonePassedOn name named ↔
        Appliable usualSettings (Shelf.keyOf name) (loneRecord name named)
          (oneShelfMachine name) := by
    obtain ⟨root, records, located, listed, every⟩ :=
      passedOn_iff_appliable usualSettings (surroundingsOn (oneShelfMachine name)) {}
        (sessionOn (oneShelfMachine name)) alone.sound alone.ended
    obtain rfl := Except.ok.inj (alone.root.symm.trans located)
    obtain rfl := Except.ok.inj (alone.listed.symm.trans listed)
    exact (every _ _ only).2 _ {} (sessionOn (oneShelfMachine name)) rfl rfl rfl rfl rfl
  have plain : ListedAlone "n" (by decide) :=
    ⟨⟨by decide +kernel, fun _ => by decide +kernel⟩, by decide +kernel, by decide +kernel,
      by decide +kernel⟩
  have dot : ListedAlone "." (by decide) :=
    ⟨⟨by decide +kernel, fun _ => by decide +kernel⟩, by decide +kernel, by decide +kernel,
      by decide +kernel⟩
  constructor
  · refine (passedOn_iff plain rfl).2 ?_
    exact ⟨by decide, by decide, by decide +kernel, [], [], by decide, ⟨_, rfl⟩, rfl⟩
  · intro passed
    exact absurd ((passedOn_iff dot rfl).1 passed).fits (by decide)

end Commands

end PatchShelf
