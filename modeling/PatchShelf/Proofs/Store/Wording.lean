/-
Module: PatchShelf.Proofs.Store.Wording
Purpose: The failures of the store in a working copy are failures of a store.
Main exports:
  WorkingCopyStore.OnlyStops, WorkingCopyStore.FailsInWords, WorkingCopyStore.failsAsStore
-/
import PatchShelf.Proofs.Store.Answers
import PatchShelf.Proofs.Store.Refusals

/-!
What stops the store is either put in its own words or a fault that passes through it: of the
system, of a value that is refused, or of a request without a target.  No failure of another
part of the program comes out of it, whatever stands in the files and whatever the client does.
-/

namespace PatchShelf

namespace WorkingCopyStore

open Effect (StopsOnly)
open Machine (Operation)

/-- A fault, which the program has no words of its own for. -/
def IsFault (reason : Stop) : Prop :=
  ∃ fault, reason = .fault fault

/-- Wherever the operation is started, it stops for allowed reasons only. -/
def OnlyStops {α : Type} (allowed : Stop → Prop) (action : Operation α) : Prop :=
  ∀ machine, StopsOnly allowed action machine

namespace OnlyStops

variable {α β : Type} {allowed more : Stop → Prop}

theorem weaken {action : Operation α} (stops : OnlyStops allowed action)
    (implies : ∀ reason, allowed reason → more reason) : OnlyStops more action :=
  fun machine => (stops machine).weaken implies

theorem pure (result : α) : OnlyStops allowed (Pure.pure result : Operation α) :=
  fun _ => .pure result

theorem stop {reason : Stop} (holds : allowed reason) :
    OnlyStops allowed (Effect.stop reason : Operation α) :=
  fun _ => .stop holds

/-- What a sequence stops for is what its parts stop for. -/
theorem bind {action : Operation α} {next : α → Operation β} (first : OnlyStops allowed action)
    (later : ∀ result, OnlyStops allowed (next result)) : OnlyStops allowed (action >>= next) :=
  fun machine => .bind (first machine) fun result _ => later result _

/-- After an attempt, the reason for which it stopped may be passed on. -/
theorem bind_attempt {action : Operation α} {next : Except Stop α → Operation β}
    (first : OnlyStops allowed action)
    (later : ∀ ended, (∀ reason, ended = .error reason → allowed reason) →
      OnlyStops allowed (next ended)) : OnlyStops allowed (Effect.attempt action >>= next) := by
  refine fun machine => .bind_attempt fun ended came => later ended (fun reason stopped => ?_) _
  exact first machine reason (came.trans stopped)

/-- What is done after a refusal only has to keep to the words, too. -/
theorem explainingAfter {cleanup : Operation Unit} {task : Operation α} {lead : Text}
    (cleans : OnlyStops allowed cleanup) (works : OnlyStops allowed task)
    (explains : ∀ words, allowed (.failure (ShelfStore.failure (lead ++ words)))) :
    OnlyStops allowed (WorkingCopyStore.explainingAfter cleanup lead task) := by
  refine .bind_attempt works fun ended known => ?_
  split
  · exact .pure _
  · refine .bind cleans fun _ => .stop ?_
    rw [List.append_assoc]
    exact explains _
  · exact .stop (known _ rfl)

/-! ### Files -/

theorem ofAccess (result : Except Fault α) :
    OnlyStops IsFault (Effect.ofAccess result : Operation α) :=
  fun _ => .ofAccess fun fault _ => ⟨fault, rfl⟩

/-- A look at the files can only be refused with a fault. -/
theorem access (query : FileTree → Location → Except Fault α) :
    OnlyStops IsFault (Machine.access query) :=
  .bind (fun _ => nofun) fun _ => .ofAccess _

/-- A change of the files can only be refused with a fault. -/
theorem alter (step : FileTree → Location → Except Fault FileTree) :
    OnlyStops IsFault (Machine.alter step) :=
  .bind (.access step) fun _ _ => nofun

/-- Writing a file can only be refused with a fault. -/
theorem writeFile (path : Path) (content : Bytes) :
    OnlyStops IsFault (Machine.writeFile path content) :=
  .bind (fun _ => nofun) fun _ => .alter _

/-- That a file is not there is no reason to stop, and every other reason is a fault. -/
theorem unlinkIfPresent (path : Path) : OnlyStops IsFault (Machine.unlinkIfPresent path) := by
  refine .bind_attempt (.alter _) fun ended known => ?_
  split
  · exact .pure ()
  · exact .pure ()
  · exact .stop (known _ rfl)

/-- What stopped the making of a directory is handed on as it came. -/
theorem acceptDirectory {path : Path} {reason : Stop} (known : IsFault reason) :
    OnlyStops IsFault (Machine.acceptDirectory path reason) := by
  refine .bind (.access _) fun there => ?_
  split
  · exact .pure ()
  · exact .stop known

/-- To make a directory ends with a fault or not at all. -/
theorem makeDirectory (path : Path) : OnlyStops IsFault (Machine.makeDirectory path) := by
  refine .bind_attempt (.alter _) fun ended known => ?_
  split
  · exact .pure ()
  · exact .stop ⟨_, rfl⟩
  · exact .acceptDirectory (known _ rfl)

/-- By induction on the components, making the directories on a way ends with a fault or not at all.
-/
theorem makeDirectories (anchor : Anchor) (backwards : List Text) :
    OnlyStops IsFault (Machine.makeDirectories anchor backwards) := by
  induction backwards with
  | nil => exact .makeDirectory _
  | cons last above ih =>
      refine .bind_attempt (.alter _) fun ended known => ?_
      split
      · exact .pure ()
      · exact .bind ih fun _ => .makeDirectory _
      · exact .acceptDirectory (known _ rfl)

/-- The files of a shelf are written, or a fault comes out. -/
theorem writeFiles (directory patchPath logPath : Path) (patch : Bytes) (message : Option Bytes) :
    OnlyStops IsFault (WorkingCopyStore.writeFiles directory patchPath logPath patch message) := by
  refine .bind (.makeDirectories _ _) fun _ => .bind (.writeFile _ _) fun _ => ?_
  cases message with
  | none => exact .pure ()
  | some content => exact .writeFile _ _

/-! ### Steps with words of their own -/

/-- A name that is not valid for a file is refused in words. -/
theorem shelfFile {directory : Path} {name suffix : Text}
    (invalid : allowed (.failure (ShelfStore.failure
      ("'" ++ name ++ "' is not a valid shelf name")))) :
    OnlyStops allowed (Effect.ofChecked (WorkingCopyStore.shelfFile directory name suffix)) := by
  refine fun machine => .ofChecked fun failure refused => ?_
  rw [WorkingCopyStore.shelfFile] at refused
  split at refused
  · obtain rfl := Except.error.inj refused
    exact invalid
  · cases refused

/-- To find a root may end with a fault, or with one of two things to say. -/
theorem findRoot {path : Text} (faults : ∀ reason, IsFault reason → allowed reason)
    (missing : allowed (.failure (ShelfStore.failure ("The path '" ++ path ++ "' does not exist"))))
    (unversioned : allowed (.failure (ShelfStore.failure
      ("'" ++ path ++ "' is not a working copy")))) :
    OnlyStops allowed (WorkingCopyStore.findRoot path) := by
  have asks {α : Type} (query : FileTree → Location → Except Fault α) :
      OnlyStops allowed (Machine.access query) := (access query).weaken faults
  refine .bind (asks _) fun there => ?_
  split
  · refine .bind (asks _) fun location => .bind (asks _) fun inside =>
      .bind (asks _) fun found => ?_
    split
    · exact .pure _
    · exact .stop unversioned
  · exact .stop missing

/-- Before a shelf is made, these are the things to say, apart from faults. -/
theorem prepare {settings : WorkingCopyStore} {request : CreateRequest}
    (faults : ∀ reason, IsFault reason → allowed reason)
    (missing : ∀ path : Text, allowed (.failure (ShelfStore.failure
      ("The path '" ++ path ++ "' does not exist"))))
    (unversioned : ∀ path : Text, allowed (.failure (ShelfStore.failure
      ("'" ++ path ++ "' is not a working copy"))))
    (invalid : allowed (.failure (ShelfStore.failure
      ("'" ++ request.name ++ "' is not a valid shelf name"))))
    (taken : allowed (.failure (ShelfStore.shelfExists request.name))) :
    OnlyStops allowed (settings.prepare request) := by
  rw [prepare.eq_def]
  split
  · exact .stop (faults _ ⟨_, rfl⟩)
  · refine .bind (.findRoot faults (missing _) (unversioned _)) fun root =>
      .bind (.shelfFile invalid) fun path => .bind ((access _).weaken faults) fun there => ?_
    split
    · exact .stop taken
    · exact .pure _

end OnlyStops

/-- Wherever the operation is started, it stops in the words of the store or for a fault. -/
def FailsInWords {α : Type} (action : Operation α) : Prop :=
  ∀ machine, StopsOnly (Refused IsFault) action machine

namespace FailsInWords

variable {α β : Type} {settings : WorkingCopyStore}

/-- Faults are no words, so they are no failure in other words either. -/
theorem ofFaults {action : Operation α} (stops : OnlyStops IsFault action) : FailsInWords action :=
  stops.weaken fun _ isFault => .inr isFault

theorem pure (result : α) : FailsInWords (Pure.pure result : Operation α) :=
  OnlyStops.pure result

/-- A message of the store is in its words. -/
theorem fail (message : Text) :
    FailsInWords (Effect.fail (ShelfStore.failure message) : Operation α) :=
  OnlyStops.stop (refused_failure message)

/-- A sequence keeps to the words if its parts do. -/
theorem bind {action : Operation α} {next : α → Operation β} (first : FailsInWords action)
    (later : ∀ result, FailsInWords (next result)) : FailsInWords (action >>= next) :=
  OnlyStops.bind first later

theorem access (query : FileTree → Location → Except Fault α) :
    FailsInWords (Machine.access query) :=
  .ofFaults (.access query)

theorem ofAccess (result : Except Fault α) :
    FailsInWords (Effect.ofAccess result : Operation α) :=
  .ofFaults (.ofAccess result)

theorem log (level : Level) (message : Text) :
    FailsInWords (WorkingCopyStore.log level message) := by
  intro machine reason stopped
  cases stopped

theorem shelfFile (directory : Path) (name suffix : Text) :
    FailsInWords (Effect.ofChecked (WorkingCopyStore.shelfFile directory name suffix)) :=
  OnlyStops.shelfFile (refused_failure _)

/-- What the system refuses is worded, and the cleanup behind it may only add to that. -/
theorem explainingAfter {cleanup : Operation Unit} {task : Operation α} {lead : Text}
    (cleans : FailsInWords cleanup) (works : FailsInWords task) :
    FailsInWords (WorkingCopyStore.explainingAfter cleanup lead task) :=
  OnlyStops.explainingAfter cleans works fun _ => refused_failure _

theorem explaining {task : Operation α} (lead : Text) (works : FailsInWords task) :
    FailsInWords (WorkingCopyStore.explaining lead task) :=
  .explainingAfter (.pure ()) works

/-- To remove the files of a shelf, the name of its log is checked once more. -/
theorem removeFiles (directory patchPath : Path) (name : Text) :
    FailsInWords (WorkingCopyStore.removeFiles directory patchPath name) :=
  .bind (.ofFaults (.alter _)) fun _ => .bind (.shelfFile _ _ _) fun _ =>
    .ofFaults (.unlinkIfPresent _)

/-! ### Operations of the store -/

/-- Both things that there are to say about a root are words of the store. -/
theorem findRoot (path : Text) : FailsInWords (WorkingCopyStore.findRoot path) :=
  OnlyStops.findRoot (fun _ => .inr) (refused_failure _) (refused_failure _)

/-- That a shelf is not found is told in words. -/
theorem existingPatch (directory : Path) (name : Text) :
    FailsInWords (WorkingCopyStore.existingPatch directory name) := by
  refine .bind (.shelfFile _ _ _) fun path => .bind (.access _) fun there => ?_
  split
  · exact .pure _
  · exact .fail _

/-- What the client says becomes a message of the store; only a NUL gets past that. -/
theorem runClient (root : Path) (subcommand : Text) (arguments : List Text) :
    FailsInWords (settings.runClient root subcommand arguments) := fun _ =>
  (stops_runClient settings root subcommand arguments).weaken
    (Refused.imp fun _ ⟨_, isNull⟩ => ⟨_, isNull⟩)

/-- A log file is read, or it counts as empty, or a fault comes out. -/
theorem readMessage (directory : Path) (name : Text) :
    FailsInWords (WorkingCopyStore.readMessage directory name) := by
  refine .bind (.access _) fun there => ?_
  split
  · exact .bind (.access _) fun _ => .pure _
  · exact .pure _

/-- The records are read one after another; one that is left out is only logged. -/
theorem readRecords (directory : Path) (keys : List Text) (records : Shelves) :
    FailsInWords (WorkingCopyStore.readRecords directory keys records) := by
  induction keys generalizing records with
  | nil => exact .pure _
  | cons key keys ih =>
      rw [WorkingCopyStore.readRecords]
      split
      · exact .bind (.log _ _) fun _ => ih records
      · exact .bind (.access _) fun _ => .bind (.ofAccess _) fun _ => .bind (.readMessage _ _)
          fun _ => .bind (.ofAccess _) fun _ => ih _

/-- A listing fails in the words of the store. -/
theorem list (root : Text) : FailsInWords (settings.list root) := by
  refine .bind (.findRoot root) fun found => .bind (.access _) fun there => ?_
  split
  · exact .explaining _ (.bind (.access _) fun _ => .readRecords _ _ _)
  · exact .pure _

/-- Taking the changes out of the working copy fails in the words of the store. -/
theorem takeOut (root : Path) (request : CreateRequest) (patch : Text) :
    FailsInWords (settings.takeOut root request patch) := by
  rw [WorkingCopyStore.takeOut]
  split
  · exact .pure ()
  · exact .bind (.runClient _ _ _) fun _ => .bind (fun _ => .emitAll _) fun _ => .log _ _

/-- A message that cannot be encoded is refused in words, before anything is written. -/
theorem savePatch (root patchPath : Path) (request : CreateRequest) (patch : Text) :
    FailsInWords (settings.savePatch root patchPath request patch) := by
  refine .bind (fun _ => .ofChecked fun failure refused => ?_) fun message =>
    .bind (.shelfFile _ _ _) fun logPath =>
      .bind (.explainingAfter (.ofFaults (.unlinkIfPresent _)) (.ofFaults (.writeFiles _ _ _ _ _)))
        fun _ => .takeOut _ _ _
  obtain ⟨shown, rfl⟩ := encodeMessage_error refused
  exact refused_failure shown

/-- Making a shelf fails in the words of the store. -/
theorem create (request : CreateRequest) : FailsInWords (settings.create request) := by
  refine .bind ?_ fun prepared => .bind (.runClient _ _ _) fun patch => ?_
  · exact OnlyStops.prepare (fun _ => .inr) (fun _ => refused_failure _)
      (fun _ => refused_failure _) (refused_failure _) (refused_failure _)
  · split
    · exact .fail _
    · refine .bind (fun _ => .emitAll _) fun _ => ?_
      split
      · exact .pure ()
      · exact .savePatch _ _ _ _

/-- Deleting a shelf fails in the words of the store. -/
theorem delete (name root : Text) (dryRun : Bool) :
    FailsInWords (settings.delete name root dryRun) := by
  refine .bind (.findRoot root) fun found => .bind (.existingPatch _ _) fun path => ?_
  split
  · exact fun _ => .emitAll _
  · exact .bind (.explaining _ (.removeFiles _ _ _)) fun _ _ => .emitAll _

/-- Applying a shelf fails in the words of the store, and so does the deletion that it may end with.
-/
theorem apply (name root : Text) (keepLocal dryRun : Bool) :
    FailsInWords (settings.apply name root keepLocal dryRun) := by
  refine .bind (.findRoot root) fun found => .bind (.existingPatch _ _) fun path =>
    .bind (.runClient _ _ _) fun _ => .bind (.explaining _ (.access _)) fun content =>
      .bind (fun _ => .emitAll _) fun _ => ?_
  split
  · exact .pure ()
  · exact .delete _ _ _

end FailsInWords

/-- Whatever the store is asked, what it fails with in words is a failure of a store. -/
theorem failsAsStore (settings : WorkingCopyStore) : settings.store.FailsAsStore := by
  intro call machine failure stopped
  suffices words : FailsInWords (settings.store.perform call) by
    rcases words machine _ stopped with ⟨message, same⟩ | ⟨fault, same⟩
    · obtain rfl := Stop.failure.inj same
      rfl
    · cases same
  cases call with
  | list root => exact .bind (.list root) fun _ => .pure _
  | create request => exact .bind (.create request) fun _ => .pure _
  | delete name root dryRun => exact .bind (.delete name root dryRun) fun _ => .pure _
  | apply name root keepLocal dryRun =>
      exact .bind (.apply name root keepLocal dryRun) fun _ => .pure _

end WorkingCopyStore

end PatchShelf
