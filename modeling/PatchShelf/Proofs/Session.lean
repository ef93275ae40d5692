/-
Module: PatchShelf.Proofs.Session
Purpose: Which calls of its store an operation in a session can make.
Main exports:
  Context.filterMap_admitted, Session.Asks, Session.Asks.bind, Session.Asks.bind_ofChecked,
  Session.Asks.ensuring, Session.Asks.askCreate
-/
import PatchShelf.Session
import PatchShelf.Proofs.Effect

/-!
Every call of a store is an event.  What an operation asks of its store, whatever the
session, is put together from what its steps ask: those that print, log or let the store
work ask for nothing.
-/

namespace PatchShelf

/-- What no activity shows is not shown by the work of a store. -/
theorem Context.filterMap_admitted {α : Type} {shows : Event → Option α}
    (aside : ∀ activity, shows (.activity activity) = none) (context : Context)
    (trail : List Activity) : (trail.filterMap context.admit?).filterMap shows = [] := by
  refine List.filterMap_eq_nil_iff.2 fun event member => ?_
  obtain ⟨activity, -, admitted⟩ := List.mem_filterMap.1 member
  rw [eq_of_admit? admitted]
  exact aside activity

namespace Session

variable {σ α β : Type} {allowed : StoreCall → Prop}

/-- To consult an outside action runs it on the world that the session is about, and admits of its
trail what the context lets through. -/
theorem run_consult (action : Effect Activity σ α) (session : Session σ) :
    (consult action).run session =
      ⟨(action.run session.world).result,
        { session with world := (action.run session.world).world },
        (action.run session.world).events.filterMap session.context.admit?⟩ := rfl

/-- In every session, the operation asks its store for nothing but allowed calls. -/
def Asks (allowed : StoreCall → Prop) (action : Operation σ α) : Prop :=
  ∀ session call, Event.asked call ∈ (action.run session).events → allowed call

/-- Who leaves no events asks for nothing. -/
theorem asks_of_silent {action : Operation σ α} (silent : Effect.Silent action) :
    Asks allowed action := by
  intro session call member
  rw [silent session] at member
  cases member

/-- Who only reads asks for nothing. -/
theorem asks_of_reads {action : Operation σ α} (reads : Effect.Reads action) :
    Asks allowed action :=
  asks_of_silent (.ofReads reads)

theorem asks_pure (result : α) : Asks allowed (pure result : Operation σ α) :=
  asks_of_reads (.pure result)

theorem asks_fail (failure : Failure) : Asks allowed (Effect.fail failure : Operation σ α) :=
  asks_of_reads (.fail failure)

/-- One event asks for what it is a call of, if it is one. -/
theorem asks_emit {event : Event} (holds : ∀ call, event = .asked call → allowed call) :
    Asks allowed (Effect.emit event : Operation σ Unit) := by
  intro session call member
  rw [Effect.run_emit] at member
  exact holds call (List.mem_singleton.1 member).symm

theorem asks_log (level : Level) (logger message : Text) :
    Asks allowed (log level logger message : Operation σ Unit) :=
  asks_emit fun _ same => nomatch same

theorem asks_print (text : Text) : Asks allowed (print text : Operation σ Unit) :=
  asks_emit fun _ same => nomatch same

/-- What the store does shows as activity, and asks for nothing more. -/
theorem asks_consult (action : Effect Activity σ α) : Asks allowed (consult action) := by
  intro session call member
  obtain ⟨activity, -, admitted⟩ := List.mem_filterMap.1 member
  cases Context.eq_of_admit? admitted

namespace Asks

/-- A sequence asks for no more than its parts do. -/
theorem bind {action : Operation σ α} {next : α → Operation σ β} (first : Asks allowed action)
    (second : ∀ result, Asks allowed (next result)) : Asks allowed (action >>= next) := by
  intro session
  refine Effect.run_bind_induction
    (motive := fun _ trail _ => ∀ call, Event.asked call ∈ trail → allowed call)
    ?_ (first session) fun result _ => second result _
  intro _ _ _ _ _ before after call member
  exact (List.mem_append.1 member).elim (before call) (after call)

/-- What follows a step that is taken on a condition is asked for in both cases. -/
theorem bind_if {condition : Prop} [Decidable condition] {action : Operation σ Unit}
    {next : Unit → Operation σ β} (first : Asks allowed action)
    (second : ∀ result, Asks allowed (next result)) :
    Asks allowed (if condition then action >>= next else next ()) := by
  split
  · exact first.bind second
  · exact second ()

/-- Behind a check, only the result that it lets pass matters. -/
theorem bind_ofChecked {checked : Except Failure α} {next : α → Operation σ β}
    (second : ∀ result, checked = .ok result → Asks allowed (next result)) :
    Asks allowed (Effect.ofChecked checked >>= next) := by
  cases checked with
  | error failure => exact asks_of_reads (.stop _)
  | ok result => exact second result rfl

/-- The second part matters only where the look at the files was answered. -/
theorem bind_ofAccess {access : Except Fault α} {next : α → Operation σ β}
    (second : ∀ result, access = .ok result → Asks allowed (next result)) :
    Asks allowed (Effect.ofAccess access >>= next) := by
  cases access with
  | error fault => exact asks_of_reads (.stop _)
  | ok result => exact second result rfl

/-- What is done at the end may ask, too. -/
theorem ensuring {action : Operation σ α} {last : Operation σ Unit} (first : Asks allowed action)
    (final : Asks allowed last) : Asks allowed (Effect.ensuring action last) := by
  have attempted : Asks allowed (Effect.attempt action) := first
  refine attempted.bind fun ended => final.bind fun _ => ?_
  cases ended with
  | error reason => exact asks_of_reads (.stop reason)
  | ok result => exact asks_pure result

/-- A loop asks for what its steps ask for, each for its own member. -/
theorem forEach {members : List α} {step : α → Operation σ Unit}
    (each : ∀ member ∈ members, Asks allowed (step member)) :
    Asks allowed (Effect.forEach members step) :=
  Effect.forEach_induction (asks_pure ()) (fun _ _ first next => first.bind fun _ => next) each

/-- To set a message and to take it back asks for nothing. -/
theorem withLogMessage {message : Option Text} {action : Operation σ α}
    (asks : Asks allowed action) : Asks allowed (Session.withLogMessage message action) := by
  cases message with
  | none => exact asks
  | some text =>
      have set (message : Option Text) : Asks allowed (setLogMessage message : Operation σ Unit) :=
        asks_of_silent (.change _)
      exact (set _).bind fun _ => asks.ensuring ((set _).bind fun _ => asks_log _ _ _)

/-- A call of the store asks for itself, whatever the store makes of it. -/
theorem askList {backend : Backend σ} {root : Text} (holds : allowed (.list root)) :
    Asks allowed (Session.askList backend root) :=
  (asks_emit fun _ same => Event.asked.inj same ▸ holds).bind fun _ => asks_consult _

/-- A call to delete a shelf asks for that deletion. -/
theorem askDelete {backend : Backend σ} {name root : Text} {dryRun : Bool}
    (holds : allowed (.delete name root dryRun)) :
    Asks allowed (Session.askDelete backend name root dryRun) :=
  (asks_emit fun _ same => Event.asked.inj same ▸ holds).bind fun _ => asks_consult _

/-- A call to apply a shelf asks for that application. -/
theorem askApply {backend : Backend σ} {name root : Text} {keepLocal dryRun : Bool}
    (holds : allowed (.apply name root keepLocal dryRun)) :
    Asks allowed (Session.askApply backend name root keepLocal dryRun) :=
  (asks_emit fun _ same => Event.asked.inj same ▸ holds).bind fun _ => asks_consult _

/-- A request is made from the message of the context, so it has to be allowed for each. -/
theorem askCreate {backend : Backend σ} {request : Option Text → CreateRequest}
    (holds : ∀ message, allowed (.create (request message))) :
    Asks allowed (Session.askCreate backend request) :=
  (asks_of_reads .look).bind fun _ =>
    (asks_emit fun _ same => Event.asked.inj same ▸ holds _).bind fun _ => asks_consult _

/-- The program that summarizes a patch is no store. -/
theorem askSummary (backend : Backend σ) (patchPath : Text) :
    Asks allowed (Session.askSummary backend patchPath) :=
  (asks_emit fun _ same => nomatch same).bind fun _ => asks_consult _

end Asks

end Session

end PatchShelf
