/-
Module: PatchShelf.Proofs.Store.Refinement
Purpose: In runs of any length the store behaves as a map of shelves.
Main exports:
  Turn, WorkingCopyStore.perform, WorkingCopyStore.verdict, WorkingCopyStore.Fair,
  WorkingCopyStore.WithinLimits, WorkingCopyStore.Agrees,
  WorkingCopyStore.agrees_perform, WorkingCopyStore.agrees_run
-/
import Mathlib.Data.List.Forall2
import PatchShelf.Proofs.Store.Listing
import PatchShelf.Proofs.Store.ShelfDirectory
import PatchShelf.Proofs.Store.Verdicts
import PatchShelf.Session

/-!
A run is a sequence of turns.  Each turn is one call of the store, made while certain
programs are installed and the clock shows a certain time.  The files pass from turn to
turn; the map of shelves does as well.  In every turn the store ends as the map says and
leaves the files of the map behind, so the next turn starts from the same agreement.
-/

namespace PatchShelf

/-- The name that a call of the store is about, if it is about one. -/
def StoreCall.name? : StoreCall → Option Text
  | list _ => none
  | create request => some request.name
  | delete name _ _ => some name
  | apply name _ _ _ => some name

/-- The path from which a call looks for the working copy. -/
def StoreCall.path? : StoreCall → Option Text
  | list root => some root
  | create request => request.targets.head?
  | delete _ root _ => some root
  | apply _ root _ _ => some root

/-- The log message that a call brings, if it brings one. -/
def StoreCall.message? : StoreCall → Option Text
  | list _ => none
  | create request => request.logMessage
  | delete _ _ _ => none
  | apply _ _ _ _ => none

/-- A call of the store, with the programs and the clock that it meets. -/
structure Turn where
  call : StoreCall
  programs : Dictionary Text Program
  clock : Instant

namespace Turn

/-- The machine at the start of a turn: its files are as they were left. -/
def start (turn : Turn) (machine : Machine) : Machine :=
  { machine with programs := turn.programs, clock := turn.clock }

@[simp] theorem tree_start (turn : Turn) (machine : Machine) :
    (turn.start machine).tree = machine.tree := rfl

theorem sound_start (turn : Turn) {machine : Machine} (sound : machine.Sound) :
    (turn.start machine).Sound :=
  ⟨sound.tree, sound.standing⟩

/-- A machine with the programs of the turn and no files. -/
def bare (turn : Turn) : Machine :=
  ⟨.empty, [], turn.clock, turn.programs⟩

end Turn

namespace WorkingCopyStore

open Machine (Operation)

/-! ### Runs of the store and runs of the map -/

/-- What a call does; only a list of records is an answer. -/
def perform (settings : WorkingCopyStore) : StoreCall → Operation (Option Shelves)
  | .list root => do
    let records ← settings.list root
    pure (some records)
  | .create request => do
    settings.create request
    pure none
  | .delete name root dryRun => do
    settings.delete name root dryRun
    pure none
  | .apply name root keepLocal dryRun => do
    settings.apply name root keepLocal dryRun
    pure none

/-- What a turn does to the machine. -/
def turned (settings : WorkingCopyStore) (turn : Turn) (machine : Machine) :
    Outcome Activity Machine (Option Shelves) :=
  (settings.perform turn.call).run (turn.start machine)

/-- What a turn does to the map: no file decides on it, only what the client says. -/
def verdict (settings : WorkingCopyStore) (root : Path) (turn : Turn) (shelves : SavedShelves) :
    Verdict :=
  match turn.call with
  | .list _ => ⟨true, shelves⟩
  | .create request =>
    shelves.create request (settings.heard turn.bare root "diff" (selection request))
      (settings.heard (turn.bare.afterCall settings.program) root "revert" (selection request))
  | .delete name _ dryRun => shelves.delete name dryRun
  | .apply name _ keepLocal dryRun =>
    shelves.apply name keepLocal dryRun (settings.heard turn.bare root "patch"
      (patchArguments ((settings.shelvesPath root).child (name ++ Shelf.patchSuffix)) dryRun))

/-- How the turns of a run end. -/
def outcomes (settings : WorkingCopyStore) :
    List Turn → Machine → List (Outcome Activity Machine (Option Shelves))
  | [], _ => []
  | turn :: turns, machine =>
    settings.turned turn machine :: outcomes settings turns (settings.turned turn machine).world

/-- How they end for the map. -/
def verdicts (settings : WorkingCopyStore) (root : Path) : List Turn → SavedShelves → List Verdict
  | [], _ => []
  | turn :: turns, shelves =>
    settings.verdict root turn shelves ::
      verdicts settings root turns (settings.verdict root turn shelves).shelves

/-- Something holds at each turn of a run, for the machine that the turn meets. -/
def Throughout (settings : WorkingCopyStore) (holds : Turn → Machine → Prop) :
    List Turn → Machine → Prop
  | [], _ => True
  | turn :: turns, machine =>
    holds turn machine ∧ Throughout settings holds turns (settings.turned turn machine).world

/-- What holds at every turn may be weakened turn by turn. -/
theorem Throughout.imp_of_mem {settings : WorkingCopyStore} {one two : Turn → Machine → Prop}
    {turns : List Turn} {machine : Machine} (holds : settings.Throughout one turns machine)
    (weaker : ∀ turn ∈ turns, ∀ machine, one turn machine → two turn machine) :
    settings.Throughout two turns machine := by
  induction turns generalizing machine with
  | nil => trivial
  | cons turn turns ih =>
      exact ⟨weaker turn List.mem_cons_self machine holds.1,
        ih holds.2 fun later member => weaker later (List.mem_cons_of_mem _ member)⟩

/-! ### Which runs are meant -/

/-- A name that passes all checks, and whose file names are not too long. -/
structure AllowedName (name : Text) : Prop where
  valid : Arguments.toUtf8 (.text name) = .ok name
  accepted : Arguments.checkShelfName name = .ok name
  short : (Utf8.encode (name ++ Shelf.patchSuffix)).length ≤ FileTree.longestName

/-- A call on the working copy with this root, with a name and a message that can be kept
and with programs that leave the shelves and the root where they are. -/
structure Fair (settings : WorkingCopyStore) (root : Path) (turn : Turn) (machine : Machine) :
    Prop where
  here : ∃ path, turn.call.path? = some path ∧
    ((findRoot path).run (turn.start machine)).result = .ok root
  named : ∀ name, turn.call.name? = some name → AllowedName name
  valid : ∀ message, turn.call.message? = some message → message.hasRaw = false
  spares : settings.AllSpare root (settings.turned turn machine).events

/-- The system takes the path of a new patch, and the times of patches that are listed are
moments of the calendar. -/
structure WithinLimits (settings : WorkingCopyStore) (root : Path) (turn : Turn)
    (machine : Machine) : Prop where
  fits : ∀ request, turn.call = .create request →
    ((settings.shelvesPath root).child (request.name ++ Shelf.patchSuffix)).Fits
  times : ∀ path, turn.call = .list path → HasTimes machine.tree (settings.shelvesPath root)

/-- The end of a turn is that of a verdict, and the records that were listed, if any, are
those of its map. -/
structure Agrees (directory : Path) (outcome : Outcome Activity Machine (Option Shelves))
    (verdict : Verdict) : Prop extends Follows outcome directory verdict where
  lists : ∀ records, outcome.result = .ok (some records) →
    Lists directory records verdict.shelves

theorem AllowedName.kept {name : Text} (allowed : AllowedName name) : KeptName name :=
  ⟨allowed.accepted, readable_of_toUtf8 allowed.valid, allowed.short⟩

/-! ### One turn -/

variable {settings : WorkingCopyStore} {root directory : Path} {machine : Machine}
  {shelves : SavedShelves} {turn : Turn}

/-- An operation without an answer leaves what it would leave anyway. -/
theorem run_unanswered (action : Operation Unit) (machine : Machine) :
    (action >>= fun _ => pure (none : Option Shelves)).run machine =
      ⟨(action.run machine).result.map fun _ => none, (action.run machine).world,
        (action.run machine).events⟩ :=
  Effect.run_bind_pure action _ machine

/-- A call without an answer agrees if its action follows. -/
theorem agrees_of_follows {action : Operation Unit} {ended : Verdict}
    (follows : Follows (action.run machine) directory ended) :
    Agrees directory ((action >>= fun _ => pure none).run machine) ended := by
  have succeeds := follows.succeeds
  rw [run_unanswered]
  refine ⟨⟨?_, follows.sound, follows.represents⟩, ?_⟩
  · rw [← succeeds]
    cases (action.run machine).result with
    | error reason => exact ⟨nofun, nofun⟩
    | ok value => exact ⟨fun _ => ⟨value, rfl⟩, fun _ => ⟨none, rfl⟩⟩
  · cases (action.run machine).result with
    | error reason => exact nofun
    | ok value => exact nofun

/-- What is heard in a turn is up to its programs. -/
theorem heard_start (turn : Turn) (machine : Machine) (root : Path) (subcommand : Text)
    (arguments : List Text) :
    settings.heard (turn.start machine) root subcommand arguments =
      settings.heard turn.bare root subcommand arguments :=
  heard_of_programs rfl

/-- What the client is heard to answer depends on the turn, and not on the machine. -/
theorem heard_start_afterCall (turn : Turn) (machine : Machine) (root : Path) (subcommand : Text)
    (arguments : List Text) :
    settings.heard ((turn.start machine).afterCall settings.program) root subcommand arguments =
      settings.heard (turn.bare.afterCall settings.program) root subcommand arguments :=
  heard_of_programs rfl

/-- If the files are those of a map before a turn, the turn agrees with the map. -/
theorem agrees_perform (sound : machine.Sound)
    (represents : Represents machine.tree (settings.shelvesPath root) shelves)
    (fair : settings.Fair root turn machine) (limits : settings.WithinLimits root turn machine) :
    Agrees (settings.shelvesPath root) (settings.turned turn machine)
      (settings.verdict root turn shelves) := by
  obtain ⟨call, programs, clock⟩ := turn
  obtain ⟨path, isPath, found⟩ := fair.here
  have spares := fair.spares
  have soundStart := Turn.sound_start ⟨call, programs, clock⟩ sound
  have absolute := isAbsolute_of_findRoot settings soundStart found
  cases call with
  | list given =>
      obtain rfl := Option.some.inj isPath
      obtain ⟨records, listed, lists⟩ :=
        exists_run_list found absolute represents (limits.times given rfl)
      have ended : settings.turned ⟨.list given, programs, clock⟩ machine =
          ⟨.ok (some records), Turn.start ⟨.list given, programs, clock⟩ machine, []⟩ := by
        rw [turned, perform, Effect.run_bind, listed]
        rfl
      rw [ended]
      refine ⟨follows_ok soundStart represents, fun shown same => ?_⟩
      obtain rfl := Option.some.inj (Except.ok.inj same)
      exact lists
  | create request =>
      obtain ⟨rest, targets⟩ : ∃ rest, request.targets = path :: rest :=
        List.head?_eq_some_iff.1 isPath
      rw [turned, perform, run_unanswered] at spares
      have follows := follows_create targets found soundStart absolute represents
        ⟨(fair.named request.name rfl).kept, limits.fits request rfl⟩ fair.valid spares
      rw [heard_start, heard_start_afterCall] at follows
      exact agrees_of_follows follows
  | delete name given dryRun =>
      obtain rfl := Option.some.inj isPath
      exact agrees_of_follows (follows_delete found soundStart absolute represents
        (fair.named name rfl).kept)
  | apply name given keepLocal dryRun =>
      obtain rfl := Option.some.inj isPath
      rw [turned, perform, run_unanswered] at spares
      have follows := follows_apply found soundStart absolute represents
        (fair.named name rfl).kept spares
      rw [heard_start] at follows
      exact agrees_of_follows follows

/-! ### Whole runs -/

/-- Runs keep the agreement. -/
theorem agrees_of_represents (turns : List Turn) (machine : Machine) (shelves : SavedShelves)
    (sound : machine.Sound)
    (represents : Represents machine.tree (settings.shelvesPath root) shelves)
    (fair : settings.Throughout (settings.Fair root) turns machine)
    (limits : settings.Throughout (settings.WithinLimits root) turns machine) :
    List.Forall₂ (Agrees (settings.shelvesPath root)) (settings.outcomes turns machine)
      (settings.verdicts root turns shelves) := by
  induction turns generalizing machine shelves with
  | nil => exact .nil
  | cons turn turns ih =>
      have agrees := agrees_perform sound represents fair.1 limits.1
      exact .cons agrees (ih _ _ agrees.sound agrees.represents fair.2 limits.2)

/-- A directory of shelves that is missing, or holds nothing but files of shelves, stands
for a map, and every run of the store agrees with the run of that map. -/
theorem agrees_run (settings : WorkingCopyStore) (root : Path) (turns : List Turn)
    (machine : Machine) (sound : machine.Sound)
    (starts : machine.tree.Vacant (settings.shelvesPath root) ∨
      ∃ place, OnlyShelfFiles machine.tree (settings.shelvesPath root) place)
    (fair : settings.Throughout (settings.Fair root) turns machine)
    (limits : settings.Throughout (settings.WithinLimits root) turns machine) :
    ∃ shelves, Represents machine.tree (settings.shelvesPath root) shelves ∧
      List.Forall₂ (Agrees (settings.shelvesPath root)) (settings.outcomes turns machine)
        (settings.verdicts root turns shelves) := by
  obtain ⟨shelves, represents⟩ := exists_represents sound.tree starts
  exact ⟨shelves, represents,
    agrees_of_represents turns machine shelves sound represents fair limits⟩

/-- Can the time of the entry be read, if it is a file? -/
def hasTime : Entry → Bool
  | .directory => true
  | .file _ modified => modified.read.isOk
  | .link _ => true

/-- A turn that finds the working copy, with programs that touch no file, while the times
of all files can be read. -/
def Calm (settings : WorkingCopyStore) (root : Path) (turn : Turn) (machine : Machine) : Prop :=
  (turn.call.path?.bind fun path => ((findRoot path).run (turn.start machine)).result.toOption) =
      some root ∧
    (∀ call ∈ Activity.calls (settings.turned turn machine).events,
      call.left = call.found ∧ call.found.Sound) ∧
    ∀ pair ∈ machine.tree.entries.pairs, hasTime pair.2 = true

instance (settings : WorkingCopyStore) (root : Path) (turn : Turn) (machine : Machine) :
    Decidable (settings.Calm root turn machine) :=
  inferInstanceAs (Decidable (_ ∧ _ ∧ _))

instance decidableThroughout (settings : WorkingCopyStore) (holds : Turn → Machine → Prop)
    [∀ turn machine, Decidable (holds turn machine)] :
    ∀ turns machine, Decidable (settings.Throughout holds turns machine)
  | [], _ => .isTrue trivial
  | turn :: turns, machine =>
    have := decidableThroughout settings holds turns (settings.turned turn machine).world
    inferInstanceAs (Decidable (holds turn machine ∧ _))

/-- At a calm turn the root is found. -/
theorem Calm.here (calm : settings.Calm root turn machine) :
    ∃ path, turn.call.path? = some path ∧
      ((findRoot path).run (turn.start machine)).result = .ok root := by
  obtain ⟨path, isPath, ended⟩ := Option.bind_eq_some_iff.1 calm.1
  refine ⟨path, isPath, ?_⟩
  cases result : ((findRoot path).run (turn.start machine)).result with
  | error reason =>
      rw [result] at ended
      cases ended
  | ok other =>
      rw [result] at ended
      exact congrArg Except.ok (Option.some.inj ended)

theorem Calm.spares (calm : settings.Calm root turn machine) :
    settings.AllSpare root (settings.turned turn machine).events := by
  intro call member
  obtain ⟨same, sound⟩ := calm.2.1 call member
  rw [same]
  exact ⟨⟨.refl sound, id⟩, fun _ _ => id⟩

/-- A calm turn is fair, if its name is allowed and its message can be encoded. -/
theorem Calm.fair (calm : settings.Calm root turn machine)
    (named : ∀ name, turn.call.name? = some name → AllowedName name)
    (valid : ∀ message, turn.call.message? = some message → message.hasRaw = false) :
    settings.Fair root turn machine :=
  ⟨calm.here, named, valid, calm.spares⟩

theorem Calm.hasTimes (calm : settings.Calm root turn machine) (directory : Path) :
    HasTimes machine.tree directory := by
  intro place _ name content modified stands
  have member : (patchAt place name, Entry.file content modified) ∈
      machine.tree.entries.pairs := by
    rw [FileTree.get?, if_neg (patchAt_ne_root place name)] at stands
    exact Dictionary.mem_of_get? stands
  have read := calm.2.2 _ member
  simp only [hasTime] at read
  cases ended : modified.read with
  | error fault =>
      rw [ended] at read
      cases read
  | ok moment => exact ⟨moment, rfl⟩

/-- A client that says something once. -/
def plainPrograms (output : Bytes) : Dictionary Text Program :=
  .ofList [("svn", ⟨true, [⟨0, output, [], id⟩]⟩)]

/-- The root of the usual working copy. -/
def plainRoot : Path :=
  Location.toPath [Utf8.encode "wc"]

/-- A shelf is made, listed, applied and deleted. -/
def plainTurns : List Turn :=
  [⟨.create (plainRequest (some "why")), plainPrograms (Utf8.encode "Index: a\n+x\n"), .epoch⟩,
    ⟨.list "/wc", plainPrograms [], .epoch⟩,
    ⟨.apply "n" "/wc" true false, plainPrograms [], .epoch⟩,
    ⟨.delete "n" "/wc" false, plainPrograms [], .epoch⟩]

theorem agrees_run_plain :
    ∃ shelves, Represents (plainMachine []).tree (plainSettings.shelvesPath plainRoot) shelves ∧
      List.Forall₂ (Agrees (plainSettings.shelvesPath plainRoot))
        (plainSettings.outcomes plainTurns (plainMachine []))
        (plainSettings.verdicts plainRoot plainTurns shelves) := by
  have sound : (plainMachine []).Sound := ⟨by decide +kernel, fun _ => rfl⟩
  have leads : (plainMachine []).tree.Leads (adminPath plainRoot)
      [Utf8.encode ".svn", Utf8.encode "wc"] := by
    rfl
  have isRoot : IsRoot (plainMachine []).tree [Utf8.encode "wc"] := ⟨rfl, _, leads⟩
  have vacant : (plainMachine []).tree.Vacant (plainSettings.shelvesPath plainRoot) := by
    refine ⟨rfl, ⟨by decide +kernel, by decide +kernel⟩, ?_, by decide +kernel, ?_⟩
    · exact isEntryName_of_mem_shelvesPath sound.tree isRoot (by decide +kernel)
    · have bare : (plainMachine []).tree.get?
          (Utf8.encode "shelves" :: [Utf8.encode ".svn", Utf8.encode "wc"]) = none := by
        rfl
      exact .here leads bare
  have named : ∀ name, some ("n" : Text) = some name → AllowedName name := by
    intro name same
    obtain rfl := Option.some.inj same
    exact ⟨rfl, rfl, by decide⟩
  have calm : plainSettings.Throughout (plainSettings.Calm plainRoot) plainTurns
      (plainMachine []) := by
    decide +kernel
  obtain ⟨made, listed, applied, deleted, -⟩ := calm
  refine agrees_run plainSettings plainRoot plainTurns (plainMachine []) sound (.inl vacant)
    ⟨made.fair named ?_, listed.fair nofun nofun, applied.fair named nofun,
      deleted.fair named nofun, trivial⟩
    ⟨⟨?_, nofun⟩, ⟨nofun, fun _ _ => listed.hasTimes _⟩, ⟨nofun, nofun⟩, ⟨nofun, nofun⟩, trivial⟩
  · intro message same
    obtain rfl := Option.some.inj same
    rfl
  · intro request same
    obtain rfl := StoreCall.create.inj same
    exact ⟨by decide +kernel, by decide +kernel⟩

end WorkingCopyStore

end PatchShelf
