/-
Module: PatchShelf.Proofs.Machine.Stretches
Purpose: What happens to the files before, between and behind the calls of programs.
Main exports:
  Stretches, Stretches.append, Stretches.of_starts, Stretches.final_eq, Machine.Passes,
  Machine.Passes.bind, Machine.Passes.alter, Machine.Passes.call, Machine.CallsOnly
-/
import PatchShelf.Proofs.Machine.Calls

/-!
An operation hands the files over to each program that it calls and takes them back as
this leaves them.  What happens to them before the first call, between two calls and
behind the last one is the operation's own work.
-/

namespace PatchShelf

variable {allowed more : FileTree → FileTree → Prop} {start middle final : FileTree}
  {made others : List ProgramCall}

/-- From one tree through calls of programs to another tree, what happens outside of the
calls is allowed. -/
def Stretches (allowed : FileTree → FileTree → Prop) :
    (start : FileTree) → (made : List ProgramCall) → (final : FileTree) → Prop
  | start, [], final => allowed start final
  | start, call :: rest, final => allowed start call.found ∧ Stretches allowed call.left rest final

namespace Stretches

/-- One run goes on where another one ends: the last stretch of the one and the first of the
other make one stretch. -/
theorem append (trans : ∀ one two three, allowed one two → allowed two three → allowed one three)
    (first : Stretches allowed start made middle)
    (second : Stretches allowed middle others final) :
    Stretches allowed start (made ++ others) final := by
  induction made generalizing start with
  | nil =>
      cases others with
      | nil => exact trans _ _ _ first second
      | cons call rest =>
          obtain ⟨begins, goes⟩ := second
          exact ⟨trans _ _ _ first begins, goes⟩
  | cons call rest ih =>
      obtain ⟨begins, goes⟩ := first
      exact ⟨begins, ih goes⟩

/-- What is allowed can be told of each stretch from how it starts: at the start of the whole
or as a call leaves the files. -/
theorem of_starts {begun : FileTree → Prop} (run : Stretches allowed start made final)
    (begins : begun start) (left : ∀ call ∈ made, begun call.left)
    (implies : ∀ one two, begun one → allowed one two → more one two) :
    Stretches more start made final := by
  induction made generalizing start with
  | nil => exact implies _ _ begins run
  | cons call rest ih =>
      obtain ⟨first, goes⟩ := run
      refine ⟨implies _ _ begins first, ih goes (left call List.mem_cons_self) ?_⟩
      exact fun other later => left other (List.mem_cons_of_mem _ later)

/-- The last stretch begins as the last call leaves the files. -/
theorem of_getLast? (run : Stretches allowed start made final) {call : ProgramCall}
    (last : made.getLast? = some call) : allowed call.left final := by
  induction made generalizing start with
  | nil => cases last
  | cons first rest ih =>
      cases rest with
      | nil =>
          obtain rfl := Option.some.inj last
          exact run.2
      | cons second others => exact ih run.2 last

/-- When neither the operation nor a program changes a file, the files are as before. -/
theorem final_eq (run : Stretches (· = ·) start made final)
    (idle : ∀ call ∈ made, call.left = call.found) : final = start := by
  induction made generalizing start with
  | nil => exact run.symm
  | cons call rest ih =>
      obtain ⟨begins, goes⟩ := run
      have here := idle call List.mem_cons_self
      rw [ih goes fun other later => idle other (List.mem_cons_of_mem _ later), here, begins]

end Stretches

namespace Machine

variable {α β : Type} {machine : Machine}

/-- Run on this machine, what the operation itself does to the files is allowed. -/
def Passes (allowed : FileTree → FileTree → Prop) (action : Operation α) (machine : Machine) :
    Prop :=
  Stretches allowed machine.tree (Activity.calls (action.run machine).events)
    (action.run machine).world.tree

namespace Passes

/-- What a run passes is seen in its calls and in the tree that it leaves. -/
theorem of_run {action : Operation α} {outcome : Outcome Activity Machine α}
    (ends : action.run machine = outcome)
    (run : Stretches allowed machine.tree (Activity.calls outcome.events) outcome.world.tree) :
    Passes allowed action machine := by
  rw [Passes, ends]
  exact run

theorem ofReads (refl : ∀ tree, allowed tree tree) {action : Operation α}
    (reads : Effect.Reads action) : Passes allowed action machine := by
  rw [Passes, reads.run_eq machine]
  exact refl _

theorem emitAll (refl : ∀ tree, allowed tree tree) {events : List Activity}
    (unlike : Activity.calls events = []) :
    Passes allowed (Effect.emitAll events : Operation Unit) machine := by
  rw [Passes, Effect.run_emitAll, unlike]
  exact refl _

theorem logged (refl : ∀ tree, allowed tree tree) (record : LogRecord) :
    Passes allowed (Effect.emit (.logged record) : Operation Unit) machine :=
  refl _

theorem attempt {action : Operation α} (passes : Passes allowed action machine) :
    Passes allowed (Effect.attempt action) machine :=
  passes

/-- A sequence passes what its parts pass in turn. -/
theorem bind (trans : ∀ one two three, allowed one two → allowed two three → allowed one three)
    {action : Operation α} {next : α → Operation β} (first : Passes allowed action machine)
    (later : ∀ result, (action.run machine).result = .ok result →
      Passes allowed (next result) (action.run machine).world) :
    Passes allowed (action >>= next) machine := by
  refine Effect.run_bind_induction
    (motive := fun (start : Machine) trail finish =>
      Stretches allowed start.tree (Activity.calls trail) finish.tree) ?_ first later
  intro _ _ _ _ _ before after
  rw [Activity.calls_append]
  exact before.append trans after

/-- Who only reads passes nothing. -/
theorem bind_reads {action : Operation α} {next : α → Operation β}
    (refl : ∀ tree, allowed tree tree) (reads : Effect.Reads action)
    (later : ∀ result, (action.run machine).result = .ok result →
      Passes allowed (next result) machine) :
    Passes allowed (action >>= next) machine := by
  rw [Passes, reads.run_bind]
  cases ended : (action.run machine).result with
  | error reason => exact refl _
  | ok result => exact later result ended

/-- A change of the files is allowed if it is refused or leads to an allowed tree. -/
theorem alter (refl : ∀ tree, allowed tree tree)
    {step : FileTree → Location → Except Fault FileTree}
    (goes : ∀ tree, step machine.tree machine.directory = .ok tree → allowed machine.tree tree) :
    Passes allowed (Machine.alter step) machine := by
  cases changed : step machine.tree machine.directory with
  | ok tree =>
      have ran := run_alter step machine
      rw [changed] at ran
      exact of_run ran (goes tree changed)
  | error fault =>
      have ran := run_alter step machine
      rw [changed] at ran
      exact of_run ran (refl _)

/-- To call a program is to do nothing oneself. -/
theorem call (refl : ∀ tree, allowed tree tree) (program : Text) (directory : Location)
    (arguments : List Text) :
    Passes allowed (Machine.call program directory arguments) machine := by
  by_cases open_ : machine.CanCall program directory arguments
  · exact of_run (run_call open_) ⟨refl _, refl _⟩
  · obtain ⟨result, ended, -⟩ := exists_run_call open_
    exact of_run ended (refl _)

end Passes

/-- The operation makes allowed calls of programs only. -/
def CallsOnly (allowed : ProgramCall → Prop) (action : Operation α) : Prop :=
  ∀ machine, ∀ call ∈ Activity.calls (action.run machine).events, allowed call

namespace CallsOnly

variable {allowed : ProgramCall → Prop}

/-- Without a call, every call is allowed. -/
theorem ofNoCall {action : Operation α}
    (none : ∀ machine, Activity.calls (action.run machine).events = []) :
    CallsOnly allowed action := by
  intro machine call member
  rw [none machine] at member
  cases member

theorem ofReads {action : Operation α} (reads : Effect.Reads action) : CallsOnly allowed action :=
  ofNoCall (MakesNoCall.ofSilent (.ofReads reads)).calls_run

/-- A sequence calls what its parts call. -/
theorem bind {action : Operation α} {next : α → Operation β} (first : CallsOnly allowed action)
    (second : ∀ result, CallsOnly allowed (next result)) : CallsOnly allowed (action >>= next) := by
  intro machine
  refine Effect.run_bind_induction
    (motive := fun _ trail _ => ∀ call ∈ Activity.calls trail, allowed call)
    ?_ (first machine) fun result _ => second result _
  intro _ _ _ _ _ before after call member
  rw [Activity.calls_append] at member
  exact (List.mem_append.1 member).elim (before call) (after call)

end CallsOnly

end Machine

end PatchShelf
