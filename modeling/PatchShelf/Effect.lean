/-
Module: PatchShelf.Effect
Purpose: Operations that change a world, leave a trail of events and may stop.
Main exports:
  Outcome, Audience, Effect, Effect.run, Effect.runBefore, Effect.stop, Effect.emit,
  Effect.attempt, Effect.ensuring
-/
import PatchShelf.Failure

/-!
An operation takes a world and gives back a result, the world it leaves and the
events that happened on the way.  The world and the events are there also when
the operation stops early, so a half-done operation can be described as exactly
as a finished one.

Events happen before an audience, which may refuse one: the event then does not
happen, and the operation stops at it.  An audience that refuses nothing of what
happens makes no difference, and every operation carries the proof of that.
-/

namespace PatchShelf

/-- What an operation leaves behind. -/
structure Outcome (ε σ α : Type) where
  result : Except Stop α
  world : σ
  events : List ε

/-- Who takes the events of an operation: the fault with which each is refused, if it is. -/
abbrev Audience (ε : Type) : Type := ε → Option Fault

namespace Audience

variable {ε : Type}

/-- An audience that takes every event. -/
def willing : Audience ε := fun _ => none

/-- The audience takes all of these events. -/
def Takes (audience : Audience ε) (events : List ε) : Prop :=
  ∀ event ∈ events, audience event = none

theorem takes_append {audience : Audience ε} {first second : List ε} :
    audience.Takes (first ++ second) ↔ audience.Takes first ∧ audience.Takes second :=
  List.forall_mem_append

end Audience

/-- An operation on worlds `σ` with events `ε` and results `α`. -/
structure Effect (ε σ α : Type) where
  perform : Audience ε → σ → Outcome ε σ α
  /-- An audience that takes all that happens before a willing one is as good as that. -/
  honest : ∀ audience world, audience.Takes (perform .willing world).events →
    perform audience world = perform .willing world

namespace Effect

variable {ε σ α β : Type}

/-- Operations that do the same before every audience, in every world, are the same. -/
@[ext] theorem ext {one other : Effect ε σ α}
    (same : ∀ audience world, one.perform audience world = other.perform audience world) :
    one = other := by
  cases one
  cases other
  congr
  exact funext fun audience => funext (same audience)

/-- Run an operation in a world, before an audience. -/
def runBefore (audience : Audience ε) (action : Effect ε σ α) (world : σ) : Outcome ε σ α :=
  action.perform audience world

/-- Run an operation in a world, before an audience that takes every event. -/
def run (action : Effect ε σ α) (world : σ) : Outcome ε σ α :=
  action.perform .willing world

/-- Give a result and change nothing. -/
def give (result : α) : Effect ε σ α where
  perform _ world := ⟨.ok result, world, []⟩
  honest _ _ _ := rfl

/-- What comes of an operation and of the one that goes on with its result, unless the first
one stopped. -/
def chain (first : Outcome ε σ α) (next : α → σ → Outcome ε σ β) : Outcome ε σ β :=
  match first.result with
  | .error stop => ⟨.error stop, first.world, first.events⟩
  | .ok result =>
    let second := next result first.world
    ⟨second.result, second.world, first.events ++ second.events⟩

/-- Go on with the result of an operation, unless it stopped. -/
def andThen (action : Effect ε σ α) (next : α → Effect ε σ β) : Effect ε σ β where
  perform audience world :=
    chain (action.perform audience world) fun result => (next result).perform audience
  honest audience world takes := by
    have first := action.honest audience world
    generalize action.perform .willing world = outcome at first takes
    obtain ⟨ended, after, events⟩ := outcome
    cases ended with
    | error stop =>
        rw [first takes]
        rfl
    | ok result =>
        obtain ⟨before, behind⟩ := Audience.takes_append.1 takes
        rw [first before]
        simp only [chain, (next result).honest audience after behind]

instance : Monad (Effect ε σ) where
  pure := give
  bind := andThen

/-- Stop early. -/
def stop (reason : Stop) : Effect ε σ α where
  perform _ world := ⟨.error reason, world, []⟩
  honest _ _ _ := rfl

/-- Stop with a failure of the program's own. -/
def fail (failure : Failure) : Effect ε σ α :=
  stop (.failure failure)

/-- Go on with a computed result, or stop for the reason that it names. -/
def ofExcept : Except Stop α → Effect ε σ α
  | .ok result => give result
  | .error reason => stop reason

/-- Go on with a computed result, or stop with the fault that it names. -/
def ofAccess : Except Fault α → Effect ε σ α
  | .ok result => give result
  | .error fault => stop (.fault fault)

/-- Go on with a computed result, or stop with the failure that it names. -/
def ofChecked : Except Failure α → Effect ε σ α
  | .ok result => give result
  | .error failure => fail failure

/-- Look at the world. -/
def look : Effect ε σ σ where
  perform _ world := ⟨.ok world, world, []⟩
  honest _ _ _ := rfl

/-- Change the world. -/
def change (step : σ → σ) : Effect ε σ Unit where
  perform _ world := ⟨.ok (), step world, []⟩
  honest _ _ _ := rfl

/-- Record one event, or stop with the fault with which it is refused. -/
def emit (event : ε) : Effect ε σ Unit where
  perform audience world :=
    match audience event with
    | none => ⟨.ok (), world, [event]⟩
    | some fault => ⟨.error (.fault fault), world, []⟩
  honest audience world takes := by
    rw [takes event (List.mem_singleton_self event)]
    rfl

/-- Record events, in order. -/
def emitAll : (events : List ε) → Effect ε σ Unit
  | [] => give ()
  | event :: rest => andThen (emit event) fun _ => emitAll rest

/-- Run an operation and hand over how it ended; this itself never stops. -/
def attempt (action : Effect ε σ α) : Effect ε σ (Except Stop α) where
  perform audience world :=
    let outcome := action.perform audience world
    ⟨.ok outcome.result, outcome.world, outcome.events⟩
  honest audience world takes := by
    simp only [action.honest audience world takes]

/-- Run a last step after an operation, whether or not that stopped. -/
def ensuring (action : Effect ε σ α) (last : Effect ε σ Unit) : Effect ε σ α :=
  andThen (attempt action) fun ended => andThen last fun _ => ofExcept ended

/-- Run one operation for each member of a list, in order. -/
def forEach (members : List α) (step : α → Effect ε σ Unit) : Effect ε σ Unit :=
  match members with
  | [] => give ()
  | member :: rest => andThen (step member) fun _ => forEach rest step

@[simp] theorem run_pure (result : α) (world : σ) :
    (pure result : Effect ε σ α).run world = ⟨.ok result, world, []⟩ := rfl

@[simp] theorem run_stop (reason : Stop) (world : σ) :
    (stop reason : Effect ε σ α).run world = ⟨.error reason, world, []⟩ := rfl

@[simp] theorem run_look (world : σ) :
    (look : Effect ε σ σ).run world = ⟨.ok world, world, []⟩ := rfl

@[simp] theorem run_change (step : σ → σ) (world : σ) :
    (change step : Effect ε σ Unit).run world = ⟨.ok (), step world, []⟩ := rfl

/-- Before a willing audience, all events happen. -/
@[simp] theorem run_emitAll (events : List ε) (world : σ) :
    (emitAll events : Effect ε σ Unit).run world = ⟨.ok (), world, events⟩ := by
  induction events with
  | nil => rfl
  | cons event rest ih =>
      show chain ⟨.ok (), world, [event]⟩ (fun _ => (emitAll rest).run) = _
      simp only [chain, ih, List.singleton_append]

theorem runBefore_bind (audience : Audience ε) (action : Effect ε σ α) (next : α → Effect ε σ β)
    (world : σ) : (action >>= next).runBefore audience world =
      chain (action.runBefore audience world) fun result => (next result).runBefore audience :=
  rfl

theorem runBefore_of_takes {audience : Audience ε} {action : Effect ε σ α} {world : σ}
    (takes : audience.Takes (action.run world).events) :
    action.runBefore audience world = action.run world :=
  action.honest audience world takes

theorem run_bind_ok {action : Effect ε σ α} {next : α → Effect ε σ β} {world after : σ}
    {result : α} {events : List ε} (first : action.run world = ⟨.ok result, after, events⟩) :
    (action >>= next).run world =
      ⟨((next result).run after).result, ((next result).run after).world,
        events ++ ((next result).run after).events⟩ := by
  show chain (action.run world) (fun result => (next result).run) = _
  rw [first]
  rfl

theorem run_bind_error {action : Effect ε σ α} {next : α → Effect ε σ β} {world after : σ}
    {reason : Stop} {events : List ε} (first : action.run world = ⟨.error reason, after, events⟩) :
    (action >>= next).run world = ⟨.error reason, after, events⟩ := by
  show chain (action.run world) (fun result => (next result).run) = _
  rw [first]
  rfl

end Effect

end PatchShelf
