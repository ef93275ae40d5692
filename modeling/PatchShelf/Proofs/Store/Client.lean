/-
Module: PatchShelf.Proofs.Store.Client
Purpose: Calls of the client by the store, and the wording of what the system refuses.
Main exports:
  WorkingCopyStore.run_explainingAfter, WorkingCopyStore.CanRun,
  WorkingCopyStore.run_runClient, WorkingCopyStore.exists_run_runClient
-/
import PatchShelf.Proofs.Machine.Calls
import PatchShelf.Store.WorkingCopy

/-!
The store calls the client in the root of a working copy.  Either no call is made,
and the store stops with the machine as it was, or the next reply of the client says
whether the store goes on with its output.
-/

namespace PatchShelf

namespace WorkingCopyStore

@[simp] theorem run_log (level : Level) (message : Text) (machine : Machine) :
    (log level message).run machine = ⟨.ok (), machine, [.logged ⟨level, logger, message⟩]⟩ := rfl

/-- A cleanup follows only what the system refuses. -/
theorem run_explainingAfter {α : Type} (cleanup : Machine.Operation Unit) (lead : Text)
    (task : Machine.Operation α) (machine : Machine) :
    (explainingAfter cleanup lead task).run machine =
      match (task.run machine).result with
      | .ok _ => task.run machine
      | .error (.fault (.system errno path)) =>
        let ended := (cleanup >>= fun _ => Effect.fail (ShelfStore.failure
          (lead ++ ": " ++ (Fault.system errno path).message))).run (task.run machine).world
        ⟨ended.result, ended.world, (task.run machine).events ++ ended.events⟩
      | .error _ => task.run machine := by
  rw [explainingAfter, Effect.run_bind, Effect.run_attempt]
  cases ended : task.run machine with
  | mk result world events =>
      cases result with
      | ok result => simp
      | error reason =>
          cases reason with
          | failure failure => simp
          | fault fault => cases fault <;> simp

/-- What the system refuses is cleaned up; other stops leave the machine as it is. -/
theorem world_explainingAfter {α : Type} (cleanup : Machine.Operation Unit) (lead : Text)
    (task : Machine.Operation α) (machine : Machine) :
    ((explainingAfter cleanup lead task).run machine).world =
      match (task.run machine).result with
      | .error (.fault (.system _ _)) => (cleanup.run (task.run machine).world).world
      | _ => (task.run machine).world := by
  rw [run_explainingAfter]
  split
  · rename_i same
    rw [same]
  · rename_i same
    rw [same, Effect.run_bind]
    cases (cleanup.run (task.run machine).world).result with
    | error reason => rfl
    | ok done => rfl
  · rename_i other same
    rw [same]
    split
    · rename_i shown
      exact absurd (Except.error.inj shown) (other _ _)
    · rfl

theorem silent_explainingAfter {α : Type} {cleanup : Machine.Operation Unit} {lead : Text}
    {task : Machine.Operation α} (quiet : Effect.Silent cleanup) (silent : Effect.Silent task) :
    Effect.Silent (explainingAfter cleanup lead task) := by
  refine .bind (.attempt silent) fun ended => ?_
  split
  · exact .ofReads (.pure _)
  · exact .bind quiet fun _ => .ofReads (.fail _)
  · exact .ofReads (.stop _)

/-- A result with what the system refuses in the words of the store. -/
def worded {α : Type} (lead : Text) : Except Stop α → Except Stop α
  | .ok result => .ok result
  | .error (.fault (.system errno path)) =>
    .error (.failure (ShelfStore.failure (lead ++ ": " ++ (Fault.system errno path).message)))
  | .error reason => .error reason

@[simp] theorem worded_ok {α : Type} (lead : Text) (result : α) :
    worded lead (.ok result) = .ok result := rfl

theorem worded_eq_ok_iff {α : Type} (lead : Text) (ended : Except Stop α) (value : α) :
    worded lead ended = .ok value ↔ ended = .ok value := by
  cases ended with
  | ok result => rfl
  | error reason =>
      cases reason with
      | failure failure => simp [worded]
      | fault fault => cases fault <;> simp [worded]

/-- Rewording a refusal does not touch the machine. -/
theorem run_explaining {α : Type} (lead : Text) (task : Machine.Operation α)
    (machine : Machine) :
    (explaining lead task).run machine =
      ⟨worded lead (task.run machine).result, (task.run machine).world,
        (task.run machine).events⟩ := by
  rw [explaining, run_explainingAfter]
  cases ended : task.run machine with
  | mk result world events =>
      cases result with
      | ok result => rfl
      | error reason =>
          cases reason with
          | failure failure => rfl
          | fault fault =>
              cases fault with
              | system errno shown => simp [Effect.run_bind, worded]
              | _ => rfl

/-- Wording what a look comes to is a look. -/
theorem reads_explaining {α : Type} {task : Machine.Operation α} (lead : Text)
    (reads : Effect.Reads task) : Effect.Reads (explaining lead task) := by
  intro world
  rw [run_explaining]
  exact reads world

/-- Does the store get to call the client? -/
def CanRun (settings : WorkingCopyStore) (machine : Machine) (root : Path) (subcommand : Text)
    (arguments : List Text) : Prop :=
  machine.CanCall settings.program (Location.ofPath root) (subcommand :: arguments)

/-- The call of the client, as the trail shows it. -/
def clientCall (settings : WorkingCopyStore) (machine : Machine) (root : Path)
    (subcommand : Text) (arguments : List Text) : ProgramCall :=
  machine.callMade settings.program (Location.ofPath root) (subcommand :: arguments)

/-- What the client does when it is called next. -/
def reply (settings : WorkingCopyStore) (machine : Machine) : Reply :=
  machine.nextReply settings.program

/-- What a reply of the client is to the store. -/
def taken (settings : WorkingCopyStore) (subcommand : Text) (reply : Reply) :
    Except Stop Text :=
  if reply.status = 0 then .ok (outputText reply.output)
  else .error (.failure (callFailure settings subcommand reply))

variable {settings : WorkingCopyStore} {machine : Machine} {root : Path} {subcommand : Text}
  {arguments : List Text}

/-- What the store logs before it calls the client. -/
def callRecord (settings : WorkingCopyStore) (root : Path) (subcommand : Text)
    (arguments : List Text) : LogRecord :=
  ⟨.debug, logger,
    "Running " ++ Text.joinWith " " (settings.program :: subcommand :: arguments)
      ++ " in " ++ root.toText⟩

/-- A call of the client that is made. -/
theorem run_runClient (open_ : settings.CanRun machine root subcommand arguments) :
    (settings.runClient root subcommand arguments).run machine =
      ⟨settings.taken subcommand (settings.reply machine),
        machine.afterCall settings.program,
        [.logged (settings.callRecord root subcommand arguments),
          .ran (settings.clientCall machine root subcommand arguments)]⟩ := by
  rw [runClient, Effect.run_bind, run_log]
  simp only
  rw [Effect.run_bind, run_explaining, Machine.run_call open_]
  have same : machine.nextReply settings.program = settings.reply machine := rfl
  rw [same, worded_ok]
  by_cases good : (settings.reply machine).status = 0
  · simp [taken, good, clientCall, callRecord]
  · simp [taken, good, clientCall, callRecord]

/-- A call of the client that is not made stops the store where it stands. -/
theorem exists_run_runClient (closed : ¬ settings.CanRun machine root subcommand arguments) :
    ∃ reason, (settings.runClient root subcommand arguments).run machine =
      ⟨.error reason, machine, [.logged (settings.callRecord root subcommand arguments)]⟩ := by
  obtain ⟨ended, unmade, fails⟩ := Machine.exists_run_call closed
  rw [runClient, Effect.run_bind, run_log]
  simp only
  rw [Effect.run_bind, run_explaining, unmade]
  cases reworded : worded ("Can't run '" ++ settings.program ++ "'") ended with
  | error reason => exact ⟨reason, rfl⟩
  | ok reply =>
      obtain rfl := fails reply ((worded_eq_ok_iff _ _ _).1 reworded)
      have bad : ¬ Reply.failing.status = 0 := by decide
      simp only [if_neg bad]
      exact ⟨_, rfl⟩

end WorkingCopyStore

end PatchShelf
