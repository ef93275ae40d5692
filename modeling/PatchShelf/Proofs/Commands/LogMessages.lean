/-
Module: PatchShelf.Proofs.Commands.LogMessages
Purpose: A log message is seen by the command that was given it, and by no other.
Main exports:
  Commands.Errand, Commands.outcomes, Commands.Discreet, Commands.logMessage_kept_to_command
-/
import PatchShelf.Proofs.Commands.Conduct

/-!
The log message of a new shelf travels to the store through the context, which lasts from one
command to the next.  A command that is given a message takes it out of the context again,
however it ends; one that is given none leaves the context as it is.  So if there is no message
to begin with, there is none between commands.
-/

namespace PatchShelf

namespace Commands

open Session (Course Operation courseOf)

variable {σ : Type}

/-- A command with all that it is given. -/
structure Errand (σ : Type) where
  command : Command
  backend : Backend σ
  surroundings : Surroundings
  arguments : List Argument
  options : Options

/-- What an errand does in a session. -/
def Errand.action (errand : Errand σ) : Operation σ Unit :=
  errand.command.run errand.backend errand.surroundings errand.arguments errand.options

/-- What errands leave behind, each in the session that the one before has left. -/
def outcomes : List (Errand σ) → Session σ → List (Outcome Event (Session σ) Unit)
  | [], _ => []
  | errand :: rest, session =>
    let outcome := errand.action.run session
    outcome :: outcomes rest outcome.world

/-- The store has seen the message of the errand and no other, and none is left. -/
structure Discreet (errand : Errand σ) (outcome : Outcome Event (Session σ) Unit) : Prop where
  seen : ∀ request, .asked (.create request) ∈ outcome.events →
    request.logMessage = errand.options.message
  released : outcome.world.context.logMessage = none

section Courses

variable {backend : Backend σ} {options : Options} {world : σ} {message : Option Text}
  {course : Course σ}

/-- The store sees the message of the options, or else the one that was there; that one stays or
goes. -/
structure Passes (options : Options) (message : Option Text) (course : Course σ) : Prop where
  seen : ∀ request, .create request ∈ course.asked →
    request.logMessage = options.message.or message
  left : course.logMessage = message ∨ course.logMessage = none

theorem Attempt.passes {allowed : StoreCall → Prop}
    (attempt : Attempt backend options allowed world message course) :
    Passes options message course := by
  cases attempt with
  | refused reason => exact ⟨nofun, .inl rfl⟩
  | made call line after holds confirms sees answered =>
      cases call with
      | list root => cases confirms
      | create request =>
          obtain ⟨seen, rfl⟩ := sees
          refine ⟨fun other asked => ?_, ?_⟩
          · obtain rfl := StoreCall.create.inj (List.mem_singleton.1 asked)
            exact seen
          · split
            · exact .inr rfl
            · exact .inl rfl
      | delete name root dryRun => exact ⟨by simp, .inl sees⟩
      | apply name root keepLocal dryRun => exact ⟨by simp, .inl sees⟩

theorem Conduct.passes (conduct : Conduct backend options world message course) :
    Passes options message course := by
  cases conduct with
  | attempted attempt => exact attempt.passes
  | listed root lines result after stops plain same => exact ⟨by simp, .inl rfl⟩
  | picked root name records listed attempt =>
      obtain ⟨seen, left⟩ := attempt.passes
      exact ⟨fun request asked => seen request (by simpa [Course.behind] using asked), left⟩

end Courses

/-- Without a message in the context, an errand keeps its own to itself. -/
theorem discreet_of_none (errand : Errand σ) {session : Session σ}
    (none : session.context.logMessage = none) : Discreet errand (errand.action.run session) := by
  have conduct := conducts_run errand.command errand.backend errand.surroundings errand.arguments
    errand.options session
  obtain ⟨seen, left⟩ := conduct.passes
  rw [none] at seen left
  refine ⟨fun request asked => ?_, left.elim id id⟩
  have asked : .create request ∈ Session.askedOf (errand.action.run session).events :=
    List.mem_filterMap.2 ⟨_, asked, rfl⟩
  exact (seen request asked).trans (Option.or_none)

/-- The errands of a run are discreet, since each leaves the context without a message. -/
theorem discreet_outcomes (errands : List (Errand σ)) {session : Session σ}
    (none : session.context.logMessage = none) :
    List.Forall₂ Discreet errands (outcomes errands session) := by
  induction errands generalizing session with
  | nil => exact .nil
  | cons errand rest ih =>
      have first := discreet_of_none errand none
      exact .cons first (ih first.released)

/-- A log message does not leak.  Of any errands one after another, in a context that begins
without a message, each has the store see its own message and leaves the context without one.
From any context, the scope of a message takes nothing from what the operation inside comes to,
and leaves no message; without a message there is no scope. -/
theorem logMessage_kept_to_command :
    (∀ (errands : List (Errand σ)) (notify : Bool) (world : σ),
      List.Forall₂ Discreet errands (outcomes errands ⟨⟨notify, none⟩, world⟩)) ∧
    (∀ (α : Type) (action : Operation σ α), Session.withLogMessage none action = action) ∧
    ∀ (α : Type) (text : Text) (action : Operation σ α) (session : Session σ),
      let around := (Session.withLogMessage (some text) action).run session
      let inside := action.run (session.holding (some text))
      around.result = inside.result ∧ around.world.world = inside.world.world ∧
        around.world.context = { inside.world.context with logMessage := none } := by
  refine ⟨fun errands notify world => discreet_outcomes errands rfl, fun _ _ => rfl, ?_⟩
  intro α text action session
  rw [Session.run_withLogMessage_some]
  exact ⟨rfl, rfl, rfl⟩

end Commands

end PatchShelf
