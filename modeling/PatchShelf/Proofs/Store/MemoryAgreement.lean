/-
Module: PatchShelf.Proofs.Store.MemoryAgreement
Purpose: Where the store in memory and the one in a working copy agree, and where they part.
Main exports:
  MemoryStore.turned, WorkingCopyStore.Obliging, WorkingCopyStore.Abreast,
  WorkingCopyStore.ListsAlike, WorkingCopyStore.Alike, WorkingCopyStore.keepAbreast_of_alike,
  WorkingCopyStore.keepAbreast
-/
import PatchShelf.Proofs.Store.Answers
import PatchShelf.Proofs.Store.DryRun
import PatchShelf.Proofs.Store.Refinement
import PatchShelf.Proofs.Store.UntakenNames

/-!
Both stores go through the same turns, the one with files and a client that obliges in every
call, the other in memory.  What ties them is the map of shelves that stands behind the files:
of the names that the system takes, the map has those that are in memory.  One turn keeps this,
so a run does, and in between the two differ in two ways only.  The store in memory replaces a
shelf of the same name, where the one in the working copy refuses to make it again.  And it has
no limit for the length of a name.
-/

namespace PatchShelf

/-- Names with one key are one name. -/
theorem Shelf.keyOf_injective : Function.Injective keyOf :=
  Function.LeftInverse.injective nameOf_keyOf

/-- With a client that obliges, a shelf of a new name is made. -/
theorem SavedShelves.create_of_obliging {shelves : SavedShelves} {request : CreateRequest}
    {patch : Text} {revert : Option Text} (free : shelves.contains request.name = false)
    (filled : patch.isBlank = false) (takesOut : revert.isSome = true) :
    shelves.create request (some patch) revert =
      ⟨true, if request.dryRun then shelves
        else shelves.insert request.name ⟨patch, request.logMessage⟩⟩ := by
  rw [create, if_neg (by simp [free])]
  cases dry : request.dryRun with
  | true => simp [filled]
  | false => simp [filled, takesOut]

namespace MemoryStore

variable {memory : MemoryStore} {request : CreateRequest}

/-- The same store at another time. -/
def atTime (memory : MemoryStore) (moment : Instant) : MemoryStore :=
  { memory with clock := moment }

/-- What a turn does to a store in memory, which goes by the clock of the turn. -/
def turned (turn : Turn) (memory : MemoryStore) :
    Outcome Activity MemoryStore (Option Shelves) :=
  (store.perform turn.call).run (memory.atTime turn.clock)

/-- The store with other shelves. -/
def withShelves (memory : MemoryStore) (shelves : Shelves) : MemoryStore :=
  { memory with shelves := shelves }

/-- The record that is kept for a request. -/
def recordOf (request : CreateRequest) (moment : Instant)
    (named : request.name.isBlank = false) : ShelfRecord :=
  ⟨request.name, recordedDirectory ++ Shelf.keyOf request.name, moment, recordedSize.toNat,
    request.logMessage.getD [], named⟩

/-- A store that is not broken lets every call through. -/
theorem run_checkWorking (working : memory.broken = none) :
    checkWorking.run memory = ⟨.ok (), memory, []⟩ := by
  rw [checkWorking, Effect.Reads.look.run_bind]
  simp only [Effect.run_look, working]
  rfl

/-- A listing of the store in memory is what it has. -/
theorem run_list (working : memory.broken = none) (root : Text) :
    (list root).run memory = ⟨.ok memory.shelves, memory, []⟩ := by
  rw [list, Effect.run_bind, run_checkWorking working]
  rfl

/-- A shelf is kept without a look at those that are there. -/
theorem run_create (working : memory.broken = none) (named : request.name.isBlank = false) :
    (create request).run memory =
      ⟨.ok (), memory.withShelves (if request.dryRun then memory.shelves
          else memory.shelves.insert (Shelf.keyOf request.name)
            (recordOf request memory.clock named)),
        Activity.progress .shelved request.targets⟩ := by
  rw [create, Effect.run_bind, run_checkWorking working]
  simp only
  rw [Effect.run_bind, Effect.run_emitAll]
  cases request.dryRun with
  | true =>
      simp only [if_true, Effect.run_pure, List.append_nil]
      rfl
  | false =>
      simp only [Bool.false_eq_true, if_false]
      rw [Effect.Reads.look.run_bind]
      simp only [Effect.run_look]
      rw [(Effect.Reads.ofAccess _).run_bind, Effect.run_ofAccess, ShelfRecord.make, dif_pos named,
        if_neg (by decide)]
      simp only [mapError_ok, Effect.run_change, List.nil_append, List.append_nil]
      rfl

/-- The store in memory deletes a shelf that it has, and reports one that it has not. -/
theorem run_delete (working : memory.broken = none) (name root : Text) (dryRun : Bool) :
    (delete name root dryRun).run memory =
      if memory.shelves.contains (Shelf.keyOf name) then
        ⟨.ok (), memory.withShelves (if dryRun then memory.shelves
            else memory.shelves.erase (Shelf.keyOf name)),
          Activity.progress .deleted [Shelf.keyOf name]⟩
      else ⟨.error (.failure (ShelfStore.shelfNotFound name)), memory, []⟩ := by
  rw [delete, Effect.run_bind, run_checkWorking working]
  simp only
  rw [Effect.run_bind, checkPresent, Effect.Reads.look.run_bind]
  simp only [Effect.run_look]
  cases memory.shelves.contains (Shelf.keyOf name) with
  | false => rfl
  | true =>
      cases dryRun with
      | true => rfl
      | false => rfl

section Turned

variable {turn : Turn} (working : memory.broken = none)

include working

/-- In its turn, a listing answers the shelves. -/
theorem turned_list {path : Text} (asked : turn.call = .list path) :
    turned turn memory = ⟨.ok (some memory.shelves), memory.atTime turn.clock, []⟩ := by
  have still : (memory.atTime turn.clock).broken = none := working
  have run : (store.list path).run (memory.atTime turn.clock) = _ := run_list still path
  rw [turned, asked, ShelfStore.run_perform_list, run]
  rfl

/-- A create saves the shelf whether or not there was one. -/
theorem turned_create (asked : turn.call = .create request)
    (named : request.name.isBlank = false) :
    turned turn memory =
      ⟨.ok none, (memory.atTime turn.clock).withShelves (if request.dryRun then memory.shelves
          else memory.shelves.insert (Shelf.keyOf request.name)
            (recordOf request turn.clock named)),
        Activity.progress .shelved request.targets⟩ := by
  have still : (memory.atTime turn.clock).broken = none := working
  have run : (store.create request).run (memory.atTime turn.clock) = _ := run_create still named
  rw [turned, asked, ShelfStore.perform, Effect.run_bind_pure, run]
  rfl

/-- In its turn, a delete takes the shelf away if it is there, and is refused otherwise. -/
theorem turned_delete {name path : Text} {dryRun : Bool}
    (asked : turn.call = .delete name path dryRun) :
    turned turn memory =
      if memory.shelves.contains (Shelf.keyOf name) then
        ⟨.ok none, (memory.atTime turn.clock).withShelves (if dryRun then memory.shelves
            else memory.shelves.erase (Shelf.keyOf name)),
          Activity.progress .deleted [Shelf.keyOf name]⟩
      else
        ⟨.error (.failure (ShelfStore.shelfNotFound name)), memory.atTime turn.clock, []⟩ := by
  have still : (memory.atTime turn.clock).broken = none := working
  have run : (store.delete name path dryRun).run (memory.atTime turn.clock) = _ :=
    run_delete still name path dryRun
  have known : (memory.atTime turn.clock).shelves = memory.shelves := rfl
  rw [turned, asked, ShelfStore.perform, Effect.run_bind_pure, run, known]
  cases memory.shelves.contains (Shelf.keyOf name) with
  | false => rfl
  | true => rfl

end Turned

end MemoryStore

namespace WorkingCopyStore

/-! ### The turns that are meant -/

/-- A turn of making, deleting or listing shelves in the working copy with this root.  The name
and the message are valid.  The client leaves the shelves and the root where they are, always
succeeds, and gives a patch that is not blank. -/
structure Obliging (settings : WorkingCopyStore) (root : Path) (turn : Turn) (machine : Machine) :
    Prop where
  here : ∃ path, turn.call.path? = some path ∧
    ((findRoot path).run (turn.start machine)).result = .ok root
  named : ∀ name, turn.call.name? = some name → ValidName name
  valid : ∀ message, turn.call.message? = some message → message.hasRaw = false
  unapplied : ∀ name path keepLocal dryRun, turn.call ≠ .apply name path keepLocal dryRun
  spares : settings.AllSpare root (settings.turned turn machine).events
  gives : ∀ request, turn.call = .create request → ∃ patch,
    settings.heard turn.bare root "diff" (selection request) = some patch ∧ patch.isBlank = false
  takesOut : ∀ request, turn.call = .create request →
    (settings.heard (turn.bare.afterCall settings.program) root "revert"
      (selection request)).isSome = true

/-- The system takes the path of the patch that the turn is about, and can read the times of
those that are listed. -/
structure Reaches (settings : WorkingCopyStore) (root : Path) (turn : Turn) (machine : Machine) :
    Prop where
  named : ∀ name, turn.call.name? = some name → ShelfName (settings.shelvesPath root) name
  times : ∀ path, turn.call = .list path → HasTimes machine.tree (settings.shelvesPath root)

/-- The call makes a shelf under a name that is in memory. -/
def Repeats (call : StoreCall) (memory : MemoryStore) : Prop :=
  ∃ request, call = .create request ∧
    memory.shelves.contains (Shelf.keyOf request.name) = true

/-! ### What is said of a turn of both stores -/

/-- Of the keys in memory, those are listed in the working copy whose names the system takes, and
no others. -/
def ListsAlike (settings : WorkingCopyStore) (root : Path) (machine : Machine)
    (memory : MemoryStore) : Prop :=
  ∀ path, ((findRoot path).run machine).result = .ok root →
    HasTimes machine.tree (settings.shelvesPath root) →
    ∃ own other, ((settings.list path).run machine).result = .ok own ∧
      ((MemoryStore.list path).run memory).result = .ok other ∧
      ∀ key, own.contains key = true ↔ other.contains key = true ∧
        ∃ name, key = Shelf.keyOf name ∧ ShelfName (settings.shelvesPath root) name

/-- The shelf is made again: the working copy refuses, and is left as it was; in memory another
shelf takes its place, unless this is a dry run. -/
structure MadeAgain (settings : WorkingCopyStore) (turn : Turn) (request : CreateRequest)
    (machine : Machine) (memory : MemoryStore) : Prop where
  refused : settings.turned turn machine =
    ⟨.error (.failure (ShelfStore.shelfExists request.name)), turn.start machine, []⟩
  accepted : (MemoryStore.turned turn memory).result = .ok none
  replaced : request.dryRun = false → ∃ named,
    (MemoryStore.turned turn memory).world.shelves.get? (Shelf.keyOf request.name) =
      some (MemoryStore.recordOf request turn.clock named)

/-- What a turn does to the files and to the memory that it meets. -/
structure Abreast (settings : WorkingCopyStore) (root : Path) (turn : Turn) (machine : Machine)
    (memory : MemoryStore) : Prop where
  /-- Both fail or none does, unless a shelf is made again or the system stands in the way. -/
  alike : settings.Reaches root turn machine → ¬ Repeats turn.call memory →
    ((∃ answer, (settings.turned turn machine).result = .ok answer) ↔
      ∃ answer, (MemoryStore.turned turn memory).result = .ok answer)
  again : ∀ request, turn.call = .create request →
    ShelfName (settings.shelvesPath root) request.name →
    memory.shelves.contains (Shelf.keyOf request.name) = true →
    settings.MadeAgain turn request machine memory
  /-- Only a dry run can succeed in the working copy under a name that the system does not
  take. -/
  untaken : ∀ name, turn.call.name? = some name →
    ¬ ShelfName (settings.shelvesPath root) name →
    (∃ answer, (settings.turned turn machine).result = .ok answer) →
    ∃ request, turn.call = .create request ∧ request.dryRun = true
  lists : settings.ListsAlike root (settings.turned turn machine).world
    (MemoryStore.turned turn memory).world

/-- That is so in all turns of a run. -/
def KeepAbreast (settings : WorkingCopyStore) (root : Path) :
    List Turn → Machine → MemoryStore → Prop
  | [], _, _ => True
  | turn :: turns, machine, memory =>
    settings.Abreast root turn machine memory ∧
      KeepAbreast settings root turns (settings.turned turn machine).world
        (MemoryStore.turned turn memory).world

/-! ### The map behind both stores -/

/-- A map stands behind the files, and of the names that the system takes it has those that are
in memory. -/
structure Alike (directory : Path) (machine : Machine) (memory : MemoryStore)
    (shelves : SavedShelves) : Prop where
  sound : machine.Sound
  represents : Represents machine.tree directory shelves
  working : memory.broken = none
  same : ∀ name, ShelfName directory name →
    memory.shelves.contains (Shelf.keyOf name) = shelves.contains name

variable {settings : WorkingCopyStore} {root directory : Path} {machine : Machine}
  {memory : MemoryStore} {shelves : SavedShelves} {turn : Turn}

/-- Stores that hold alike shelves list them alike. -/
theorem Alike.lists (absolute : (settings.shelvesPath root).isAbsolute = true)
    (alike : Alike (settings.shelvesPath root) machine memory shelves) :
    settings.ListsAlike root machine memory := by
  intro path found times
  obtain ⟨own, listed, lists⟩ := exists_run_list found absolute alike.represents times
  refine ⟨own, memory.shelves, congrArg Outcome.result listed,
    congrArg Outcome.result (MemoryStore.run_list alike.working path), fun key => ?_⟩
  constructor
  · intro there
    obtain ⟨record, known⟩ := Option.isSome_iff_exists.1 there
    obtain ⟨name, shelf, held, rfl⟩ := lists.only key record known
    have contained : shelves.contains name = true := by
      rw [Dictionary.contains, held]
      rfl
    have shelfName := alike.represents.shelfName contained
    exact ⟨(alike.same name shelfName).trans contained, name, rfl, shelfName⟩
  · rintro ⟨there, name, rfl, shelfName⟩
    rw [alike.same name shelfName] at there
    obtain ⟨shelf, held⟩ := Option.isSome_iff_exists.1 there
    obtain ⟨record, known, -⟩ := lists.complete name shelf held
    rw [Dictionary.contains, known]
    rfl

/-! ### One turn -/

namespace Alike

/-- The clock does not matter for what they hold. -/
theorem start (alike : Alike directory machine memory shelves) (turn : Turn) :
    Alike directory (turn.start machine) (memory.atTime turn.clock) shelves :=
  ⟨turn.sound_start alike.sound, alike.represents, alike.working, alike.same⟩

/-- A record that is put in memory matters to its own name only, and not in a dry run. -/
theorem contains_inserted (records : Shelves) (name other : Text) (record : ShelfRecord)
    (dryRun : Bool) :
    (if dryRun then records else records.insert (Shelf.keyOf name) record).contains
        (Shelf.keyOf other) =
      ((!dryRun && decide (other = name)) || records.contains (Shelf.keyOf other)) := by
  cases dryRun with
  | true => rfl
  | false => simp [Dictionary.contains_insert, Shelf.keyOf_injective.eq_iff]

/-- Behind a delete the other keys are there as before. -/
theorem contains_erased (records : Shelves) (name other : Text) (dryRun : Bool) :
    (if dryRun then records else records.erase (Shelf.keyOf name)).contains (Shelf.keyOf other) =
      ((dryRun || !decide (other = name)) && records.contains (Shelf.keyOf other)) := by
  cases dryRun with
  | true => rfl
  | false => simp [Dictionary.contains_erase, Shelf.keyOf_injective.eq_iff]

/-- A turn that lists leaves both as they are, and both answer. -/
theorem turn_list {path : Text}
    (alike : Alike (settings.shelvesPath root) machine memory shelves)
    (obliging : settings.Obliging root turn machine) (asked : turn.call = .list path) :
    Alike (settings.shelvesPath root) (settings.turned turn machine).world
        (MemoryStore.turned turn memory).world shelves ∧
      (settings.Reaches root turn machine →
        ∃ answer, (settings.turned turn machine).result = .ok answer) ∧
      ∃ answer, (MemoryStore.turned turn memory).result = .ok answer := by
  obtain ⟨given, isPath, found⟩ := obliging.here
  rw [asked] at isPath
  obtain rfl := Option.some.inj isPath
  have absolute := isAbsolute_of_findRoot settings (turn.sound_start alike.sound) found
  have unchanged := (onlyLogs_list settings path (turn.start machine)).1
  rw [MemoryStore.turned_list alike.working asked, turned, asked, perform, Effect.run_bind_pure,
    unchanged]
  refine ⟨alike.start turn, fun reaches => ?_, _, rfl⟩
  obtain ⟨records, listed, -⟩ :=
    exists_run_list found absolute (alike.start turn).represents (reaches.times path asked)
  exact ⟨some records, by rw [listed]; rfl⟩

section Create

variable {request : CreateRequest}

/-- Who obliges a create sends it a target below the root. -/
theorem exists_target (obliging : settings.Obliging root turn machine)
    (asked : turn.call = .create request) :
    ∃ path rest, request.targets = path :: rest ∧
      ((findRoot path).run (turn.start machine)).result = .ok root := by
  obtain ⟨path, isPath, found⟩ := obliging.here
  rw [asked] at isPath
  obtain ⟨rest, targets⟩ := List.head?_eq_some_iff.1 isPath
  exact ⟨path, rest, targets, found⟩

/-- A turn that creates is the create itself. -/
theorem turned_of_create (asked : turn.call = .create request) :
    settings.turned turn machine =
      (settings.create request >>= fun _ => pure none).run (turn.start machine) := by
  rw [turned, asked]
  rfl

/-- All its calls spare the directory of the shelves. -/
theorem spares_create (obliging : settings.Obliging root turn machine)
    (asked : turn.call = .create request) :
    settings.AllSpare root ((settings.create request).run (turn.start machine)).events := by
  have spares := obliging.spares
  rw [turned_of_create asked, run_unanswered] at spares
  exact spares

variable (alike : Alike (settings.shelvesPath root) machine memory shelves)
  (obliging : settings.Obliging root turn machine) (asked : turn.call = .create request)

include alike obliging asked

/-- Creating a shelf again is where the stores part: one refuses, the other replaces. -/
theorem turn_again (shelfName : ShelfName (settings.shelvesPath root) request.name)
    (known : memory.shelves.contains (Shelf.keyOf request.name) = true) :
    Alike (settings.shelvesPath root) (settings.turned turn machine).world
        (MemoryStore.turned turn memory).world shelves ∧
      settings.MadeAgain turn request machine memory := by
  obtain ⟨path, rest, targets, found⟩ := exists_target obliging asked
  have absolute := isAbsolute_of_findRoot settings (turn.sound_start alike.sound) found
  have held : shelves.contains request.name = true := (alike.same _ shelfName) ▸ known
  have refused : settings.turned turn machine =
      ⟨.error (.failure (ShelfStore.shelfExists request.name)), turn.start machine, []⟩ := by
    rw [turned_of_create asked, run_unanswered, create, Effect.run_bind,
      run_prepare targets found absolute (alike.start turn).represents shelfName, if_pos held]
    rfl
  have made := MemoryStore.turned_create alike.working asked shelfName.filled
  refine ⟨?_, refused, congrArg Outcome.result made, fun wet => ⟨shelfName.filled, ?_⟩⟩
  · rw [refused, made]
    refine ⟨(alike.start turn).sound, alike.represents, alike.working, fun other fits => ?_⟩
    rw [MemoryStore.withShelves, contains_inserted, alike.same other fits]
    by_cases same : other = request.name
    · rw [same, held, Bool.or_true]
    · simp [same]
  · rw [made, wet]
    simp [MemoryStore.withShelves]

/-- Both save a shelf that neither has. -/
theorem turn_new (shelfName : ShelfName (settings.shelvesPath root) request.name)
    (absent : memory.shelves.contains (Shelf.keyOf request.name) = false) :
    (∃ after, Alike (settings.shelvesPath root) (settings.turned turn machine).world
        (MemoryStore.turned turn memory).world after) ∧
      (∃ answer, (settings.turned turn machine).result = .ok answer) ∧
      ∃ answer, (MemoryStore.turned turn memory).result = .ok answer := by
  obtain ⟨path, rest, targets, found⟩ := exists_target obliging asked
  have absolute := isAbsolute_of_findRoot settings (turn.sound_start alike.sound) found
  have free : shelves.contains request.name = false := (alike.same _ shelfName) ▸ absent
  obtain ⟨patch, gives, filled⟩ := obliging.gives request asked
  have takesOut := obliging.takesOut request asked
  have valid := obliging.valid
  rw [asked] at valid
  have follows := follows_create targets found (alike.start turn).sound absolute
    (alike.start turn).represents shelfName valid (spares_create obliging asked)
  rw [heard_start, heard_start_afterCall, gives,
    SavedShelves.create_of_obliging free filled takesOut] at follows
  have agrees := agrees_of_follows follows
  rw [turned_of_create asked,
    MemoryStore.turned_create alike.working asked shelfName.filled]
  refine ⟨⟨_, agrees.sound, agrees.represents, alike.working, fun other fits => ?_⟩,
    agrees.succeeds.2 rfl, _, rfl⟩
  rw [MemoryStore.withShelves, contains_inserted, alike.same other fits]
  cases request.dryRun with
  | true => rfl
  | false => simp [Dictionary.contains_insert]

/-- A name that makes no file is not saved in the working copy, and fails unless dry. -/
theorem turn_untaken (untaken : ¬ ShelfName (settings.shelvesPath root) request.name) :
    Alike (settings.shelvesPath root) (settings.turned turn machine).world
        (MemoryStore.turned turn memory).world shelves ∧
      ((∃ answer, (settings.turned turn machine).result = .ok answer) →
        request.dryRun = true) := by
  obtain ⟨path, rest, targets, found⟩ := exists_target obliging asked
  have absolute := isAbsolute_of_findRoot settings (turn.sound_start alike.sound) found
  have validName := obliging.named
  rw [asked] at validName
  have valid := validName request.name rfl
  have left := untaken_create targets found (alike.start turn).sound absolute
    (alike.start turn).represents valid untaken (spares_create obliging asked)
  rw [turned_of_create asked]
  refine ⟨?_, fun ⟨answer, ended⟩ => left.dry ⟨(), ok_of_unanswered ended⟩⟩
  rw [run_unanswered, MemoryStore.turned_create alike.working asked
    (of_checkShelfName valid.accepted).1]
  refine ⟨left.sound, left.represents, alike.working, fun other fits => ?_⟩
  have apart : other ≠ request.name := by
    rintro rfl
    exact untaken fits
  rw [MemoryStore.withShelves, contains_inserted, alike.same other fits]
  simp [apart]

end Create

section Delete

variable {name path : Text} {dryRun : Bool}
  (alike : Alike (settings.shelvesPath root) machine memory shelves)
  (obliging : settings.Obliging root turn machine)
  (asked : turn.call = .delete name path dryRun)

include alike obliging asked

/-- A shelf is deleted from both, or missing in both. -/
theorem turn_delete (shelfName : ShelfName (settings.shelvesPath root) name) :
    (∃ after, Alike (settings.shelvesPath root) (settings.turned turn machine).world
        (MemoryStore.turned turn memory).world after) ∧
      ((∃ answer, (settings.turned turn machine).result = .ok answer) ↔
        ∃ answer, (MemoryStore.turned turn memory).result = .ok answer) := by
  obtain ⟨given, isPath, found⟩ := obliging.here
  rw [asked] at isPath
  obtain rfl := Option.some.inj isPath
  have absolute := isAbsolute_of_findRoot settings (turn.sound_start alike.sound) found
  have opened : settings.turned turn machine =
      (settings.delete name path dryRun >>= fun _ => pure none).run (turn.start machine) := by
    rw [turned, asked]
    rfl
  have agrees : Agrees (settings.shelvesPath root) (settings.turned turn machine)
      (shelves.delete name dryRun) := by
    rw [opened]
    exact agrees_of_follows (follows_delete found (alike.start turn).sound absolute
      (alike.start turn).represents shelfName.toKeptName)
  rw [MemoryStore.turned_delete alike.working asked, alike.same name shelfName,
    agrees.succeeds]
  have represents := agrees.represents
  rw [SavedShelves.delete] at represents ⊢
  cases held : shelves.contains name with
  | false =>
      rw [held] at represents
      refine ⟨⟨shelves, agrees.sound, represents, alike.working, alike.same⟩, ?_, ?_⟩
      · intro succeeds
        cases succeeds
      · rintro ⟨answer, good⟩
        cases good
  | true =>
      rw [held] at represents
      refine ⟨⟨_, agrees.sound, represents, alike.working, fun other fits => ?_⟩,
        fun _ => ⟨_, rfl⟩, fun _ => rfl⟩
      rw [if_pos rfl, MemoryStore.withShelves, contains_erased, alike.same other fits]
      cases dryRun with
      | true => rfl
      | false => simp [Dictionary.contains_erase]

/-- A name that makes no file is in neither. -/
theorem turn_delete_untaken (untaken : ¬ ShelfName (settings.shelvesPath root) name) :
    Alike (settings.shelvesPath root) (settings.turned turn machine).world
        (MemoryStore.turned turn memory).world shelves ∧
      ¬ ∃ answer, (settings.turned turn machine).result = .ok answer := by
  obtain ⟨given, isPath, found⟩ := obliging.here
  have validName := obliging.named
  rw [asked] at isPath validName
  obtain rfl := Option.some.inj isPath
  have absolute := isAbsolute_of_findRoot settings (turn.sound_start alike.sound) found
  obtain ⟨reason, stopped⟩ : ∃ reason, (settings.delete name path dryRun).run
      (turn.start machine) = ⟨.error reason, turn.start machine, []⟩ :=
    exists_stop_delete found absolute (alike.start turn).represents (validName name rfl) untaken
  rw [turned, asked, perform, run_unanswered, stopped,
    MemoryStore.turned_delete alike.working asked]
  constructor
  · split
    · refine ⟨(alike.start turn).sound, alike.represents, alike.working, fun other fits => ?_⟩
      have apart : other ≠ name := by
        rintro rfl
        exact untaken fits
      rw [MemoryStore.withShelves, contains_erased, alike.same other fits]
      simp [apart]
    · exact alike.start turn
  · rintro ⟨answer, good⟩
    cases good

end Delete

/-- A turn of both stores keeps the map between them. -/
theorem exists_turn (alike : Alike (settings.shelvesPath root) machine memory shelves)
    (obliging : settings.Obliging root turn machine) :
    ∃ after, Alike (settings.shelvesPath root) (settings.turned turn machine).world
        (MemoryStore.turned turn memory).world after ∧
      settings.Abreast root turn machine memory := by
  obtain ⟨path, isPath, found⟩ := obliging.here
  have absolute := isAbsolute_of_findRoot settings (turn.sound_start alike.sound) found
  cases asked : turn.call with
  | list path =>
      obtain ⟨after, own, other⟩ := alike.turn_list obliging asked
      refine ⟨shelves, after, fun reaches _ => ⟨fun _ => other, fun _ => own reaches⟩, ?_, ?_,
        after.lists absolute⟩
      · intro request same
        cases asked.symm.trans same
      · intro name isName
        rw [asked] at isName
        cases isName
  | create request =>
      have named : turn.call.name? = some request.name := by
        rw [asked]
        rfl
      -- A name that the system does not take, and a shelf that is made again, part the two stores.
      by_cases shelfName : ShelfName (settings.shelvesPath root) request.name
      · have taken : ∀ name, turn.call.name? = some name →
            ShelfName (settings.shelvesPath root) name := fun name isName =>
          Option.some.inj (named.symm.trans isName) ▸ shelfName
        cases known : memory.shelves.contains (Shelf.keyOf request.name) with
        | true =>
            obtain ⟨after, again⟩ := alike.turn_again obliging asked shelfName known
            refine ⟨shelves, after, fun _ other => absurd ⟨request, asked, known⟩ other, ?_,
              fun name isName untaken => absurd (taken name isName) untaken,
              after.lists absolute⟩
            intro other same _ _
            obtain rfl := StoreCall.create.inj (asked.symm.trans same)
            exact again
        | false =>
            obtain ⟨⟨after, kept⟩, own, other⟩ := alike.turn_new obliging asked shelfName known
            refine ⟨after, kept, fun _ _ => ⟨fun _ => other, fun _ => own⟩, ?_,
              fun name isName untaken => absurd (taken name isName) untaken,
              kept.lists absolute⟩
            intro other same _ repeats
            obtain rfl := StoreCall.create.inj (asked.symm.trans same)
            exact absurd (known.symm.trans repeats) Bool.false_ne_true
      · obtain ⟨after, dry⟩ := alike.turn_untaken obliging asked shelfName
        refine ⟨shelves, after, fun reaches _ => absurd (reaches.named _ named) shelfName, ?_,
          fun _ _ _ ended => ⟨request, asked, dry ended⟩, after.lists absolute⟩
        intro other same fits _
        obtain rfl := StoreCall.create.inj (asked.symm.trans same)
        exact absurd fits shelfName
  | delete name path dryRun =>
      have named : turn.call.name? = some name := by
        rw [asked]
        rfl
      have unmade : ∀ request, turn.call ≠ .create request := fun request same => by
        cases asked.symm.trans same
      by_cases shelfName : ShelfName (settings.shelvesPath root) name
      · obtain ⟨⟨after, kept⟩, ends⟩ := alike.turn_delete obliging asked shelfName
        refine ⟨after, kept, fun _ _ => ends, fun request same => absurd same (unmade request),
          fun other isName untaken => ?_, kept.lists absolute⟩
        exact absurd (Option.some.inj (named.symm.trans isName) ▸ shelfName) untaken
      · obtain ⟨after, stopped⟩ := alike.turn_delete_untaken obliging asked shelfName
        exact ⟨shelves, after, fun reaches _ => absurd (reaches.named _ named) shelfName,
          fun request same => absurd same (unmade request),
          fun _ _ _ ended => absurd ended stopped, after.lists absolute⟩
  | apply name path keepLocal dryRun =>
      exact absurd asked (obliging.unapplied name path keepLocal dryRun)

end Alike

/-! ### Whole runs -/

/-- By induction on the turns, the stores keep abreast from any two that are alike. -/
theorem keepAbreast_of_alike (turns : List Turn) (machine : Machine) (memory : MemoryStore)
    (shelves : SavedShelves)
    (alike : Alike (settings.shelvesPath root) machine memory shelves)
    (obliging : settings.Throughout (settings.Obliging root) turns machine) :
    settings.KeepAbreast root turns machine memory := by
  induction turns generalizing machine memory shelves with
  | nil => trivial
  | cons turn turns ih =>
      obtain ⟨after, kept, abreast⟩ := alike.exists_turn obliging.1
      exact ⟨abreast, ih _ _ after kept obliging.2⟩

/-- A directory of shelves that is missing or empty stands for the map without names. -/
theorem represents_empty {tree : FileTree}
    (bare : tree.Vacant directory ∨
      ∃ place, tree.Leads directory place ∧ tree.names place = []) :
    Represents tree directory .empty := by
  rcases bare with vacant | ⟨place, leads, empty⟩
  · exact .vacant vacant fun _ => rfl
  · refine .held place ⟨leads, nofun, nofun, nofun, nofun, fun fileName stands => ?_⟩
    have member := (tree.mem_names_iff place fileName).2 stands
    rw [empty] at member
    cases member

/-- Both stores are empty, and go through turns of making, deleting and listing shelves, with a
client that obliges in every call.  Then they fail in the same turns and list the same keys,
with two exceptions.  A shelf is made again in memory, where the working copy refuses to make it.
And the system does not take every name, or cannot read the time of a patch. -/
theorem keepAbreast (settings : WorkingCopyStore) (root : Path) (turns : List Turn)
    (machine : Machine) (memory : MemoryStore) (sound : machine.Sound)
    (bare : machine.tree.Vacant (settings.shelvesPath root) ∨
      ∃ place, machine.tree.Leads (settings.shelvesPath root) place ∧
        machine.tree.names place = [])
    (working : memory.broken = none) (fresh : memory.shelves = .empty)
    (obliging : settings.Throughout (settings.Obliging root) turns machine) :
    settings.KeepAbreast root turns machine memory := by
  refine keepAbreast_of_alike turns machine memory .empty
    ⟨sound, represents_empty bare, working, fun name _ => ?_⟩ obliging
  rw [fresh]
  rfl

/-! ### A shelf that is made twice -/

/-- A machine with a working copy whose directory of shelves is empty. -/
def emptyMachine : Machine :=
  { plainMachine [] with
    tree := (plainMachine []).tree.put (Utf8.encode "shelves" :: [Utf8.encode ".svn",
      Utf8.encode "wc"]) .directory }

/-- A store in memory without shelves. -/
def emptyMemory : MemoryStore :=
  ⟨.empty, none, .epoch⟩

/-- A request with a name of three hundred letters. -/
def longRequest : CreateRequest :=
  { plainRequest none with name := List.replicate 300 (.char 'x') }

/-- A turn with a client that gives the same patch every time. -/
def plainTurn (call : StoreCall) : Turn :=
  ⟨call, plainPrograms (Utf8.encode "Index: a\n+x\n"), .epoch⟩

/-- A shelf is made twice, listed, and deleted twice, and one with a long name is made. -/
def repeatedTurns : List Turn :=
  [.create (plainRequest none), .create (plainRequest (some "why")), .list "/wc",
    .delete "n" "/wc" false, .delete "n" "/wc" false, .create longRequest].map plainTurn

/-- The two stores keep abreast in these turns, and part in the second of them. -/
theorem keepAbreast_repeated :
    plainSettings.KeepAbreast plainRoot repeatedTurns emptyMachine emptyMemory ∧
      plainSettings.MadeAgain (plainTurn (.create (plainRequest (some "why"))))
        (plainRequest (some "why"))
        (plainSettings.turned (plainTurn (.create (plainRequest none))) emptyMachine).world
        (MemoryStore.turned (plainTurn (.create (plainRequest none))) emptyMemory).world := by
  have sound : emptyMachine.Sound := ⟨by decide +kernel, fun _ => rfl⟩
  have leads : emptyMachine.tree.Leads (plainSettings.shelvesPath plainRoot)
      (Utf8.encode "shelves" :: [Utf8.encode ".svn", Utf8.encode "wc"]) := by
    rw [FileTree.Leads]
    decide +kernel
  have bare : emptyMachine.tree.names (Utf8.encode "shelves" :: [Utf8.encode ".svn",
      Utf8.encode "wc"]) = [] := by
    decide +kernel
  have calm : plainSettings.Throughout (plainSettings.Calm plainRoot) repeatedTurns
      emptyMachine := by
    decide +kernel
  have named : ∀ turn ∈ repeatedTurns, ∀ name, turn.call.name? = some name →
      Arguments.toUtf8 (.text name) = .ok name ∧ Arguments.checkShelfName name = .ok name := by
    decide +kernel
  have valid : ∀ turn ∈ repeatedTurns, ∀ message, turn.call.message? = some message →
      message.hasRaw = false := by
    decide +kernel
  have known : ∀ turn ∈ repeatedTurns,
      (∀ name path keepLocal dryRun, turn.call ≠ .apply name path keepLocal dryRun) ∧
        ∀ request, turn.call = .create request →
          plainSettings.heard turn.bare plainRoot "diff" (selection request) =
              some "Index: a\n+x\n" ∧
            (plainSettings.heard (turn.bare.afterCall plainSettings.program) plainRoot "revert"
              (selection request)).isSome = true := by
    intro turn member
    obtain ⟨call, listed, rfl⟩ := List.mem_map.1 member
    simp only [List.mem_cons, List.not_mem_nil, or_false] at listed
    rcases listed with rfl | rfl | rfl | rfl | rfl | rfl
    all_goals
      refine ⟨nofun, ?_⟩
      rintro request ⟨⟩ <;> decide +kernel
  have obliging : plainSettings.Throughout (plainSettings.Obliging plainRoot) repeatedTurns
      emptyMachine := by
    refine calm.imp_of_mem fun turn member machine still => ?_
    obtain ⟨unapplied, hears⟩ := known turn member
    exact ⟨still.here, fun name isName => ⟨(named turn member name isName).1,
      (named turn member name isName).2⟩, valid turn member, unapplied, still.spares,
      fun request asked => ⟨_, (hears request asked).1, by decide⟩,
      fun request asked => (hears request asked).2⟩
  have abreast := keepAbreast plainSettings plainRoot repeatedTurns emptyMachine emptyMemory sound
    (.inr ⟨_, leads, bare⟩) rfl rfl obliging
  have shelfName : ShelfName (plainSettings.shelvesPath plainRoot) "n" :=
    ⟨⟨rfl, by decide +kernel, by decide⟩, ⟨by decide +kernel, by decide +kernel⟩⟩
  exact ⟨abreast, abreast.2.1.again _ rfl shelfName (by decide +kernel)⟩

end WorkingCopyStore

end PatchShelf
