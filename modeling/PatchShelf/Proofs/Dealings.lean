/-
Module: PatchShelf.Proofs.Dealings
Purpose: What a command does to its store, apart from what it says.
Main exports:
  Session.dealings, Session.ranCalls, Session.SameDealings, Session.Talks,
  Session.Talks.of_bind_ok, Session.sameDealings_withLogMessage
-/
import PatchShelf.Proofs.Machine.Calls
import PatchShelf.Proofs.Session

/-!
A command checks, prints, warns and logs around one call of its store.  What it says does
not matter to the store: behind a step that only talks, the rest of the command deals with
the store as if it stood alone.
-/

namespace PatchShelf

/-- Is the event a call, of the store or of a program? -/
def Event.isCall : Event → Bool
  | activity (.ran _) => true
  | activity (.notified _) => false
  | activity (.logged _) => false
  | asked _ => true
  | summarized _ => false
  | printed _ => false
  | warned _ => false

/-- The call of a program that an event is, if it is one. -/
def Event.ran? : Event → Option ProgramCall
  | activity (.ran call) => some call
  | activity (.notified _) => none
  | activity (.logged _) => none
  | asked _ => none
  | summarized _ => none
  | printed _ => none
  | warned _ => none

namespace Session

variable {σ α β : Type}

/-- The calls in a trail of events. -/
def dealings (trail : List Event) : List Event :=
  trail.filter Event.isCall

@[simp] theorem dealings_nil : dealings [] = [] := rfl

@[simp] theorem dealings_append (first second : List Event) :
    dealings (first ++ second) = dealings first ++ dealings second :=
  List.filter_append ..

/-- The dealings of a trail are those of its events that call something. -/
theorem mem_dealings_iff {event : Event} (isCall : event.isCall = true) (trail : List Event) :
    event ∈ dealings trail ↔ event ∈ trail := by
  simp [dealings, isCall]

/-- The trail that the work of a store leaves in a session. -/
def madeCalls (trail : List Activity) : List Event :=
  (Activity.calls trail).map fun call => .activity (.ran call)

/-- Whether progress is reported does not matter to the calls. -/
theorem dealings_admitted (context : Context) (trail : List Activity) :
    dealings (trail.filterMap context.admit?) = madeCalls trail := by
  induction trail with
  | nil => rfl
  | cons first rest ih =>
      cases first with
      | notified event =>
          rw [List.filterMap_cons, Context.admit?]
          split
          · rename_i hidden
            exact ih
          · rename_i event shown
            split at shown
            · obtain rfl := Option.some.inj shown
              exact ih
            · cases shown
      | logged record => exact ih
      | ran call => exact congrArg (_ :: ·) ih

/-- The calls of programs in a trail of events. -/
def ranCalls (trail : List Event) : List ProgramCall :=
  trail.filterMap Event.ran?

/-- The program calls are among them. -/
theorem ranCalls_dealings (trail : List Event) : ranCalls (dealings trail) = ranCalls trail := by
  induction trail with
  | nil => rfl
  | cons first rest ih =>
      cases first with
      | activity activity =>
          cases activity with
          | notified event => exact ih
          | logged record => exact ih
          | ran call => exact congrArg (call :: ·) ih
      | asked call => exact ih
      | summarized patchPath => exact ih
      | printed text => exact ih
      | warned text => exact ih

theorem ranCalls_asked (call : StoreCall) (trail : List Event) :
    ranCalls (.asked call :: trail) = ranCalls trail := rfl

/-- Of calls that were made, all are program calls. -/
theorem ranCalls_madeCalls (trail : List Activity) :
    ranCalls (madeCalls trail) = Activity.calls trail := by
  rw [ranCalls, madeCalls, List.filterMap_map]
  exact List.filterMap_some

@[simp] theorem ranCalls_append (first second : List Event) :
    ranCalls (first ++ second) = ranCalls first ++ ranCalls second :=
  List.filterMap_append

/-- The context admits every program call. -/
theorem ranCalls_admitted (context : Context) (trail : List Activity) :
    ranCalls (trail.filterMap context.admit?) = Activity.calls trail := by
  rw [← ranCalls_dealings, dealings_admitted, ranCalls_madeCalls]

/-! ### Runs that deal alike -/

/-- Two runs end alike, leave the same world to the store and make the same calls. -/
structure SameDealings (one two : Outcome Event (Session σ) α) : Prop where
  result : one.result = two.result
  world : one.world.world = two.world.world
  calls : dealings one.events = dealings two.events

/-- To have the same dealings passes on. -/
theorem SameDealings.trans {one two three : Outcome Event (Session σ) α}
    (first : SameDealings one two) (second : SameDealings two three) : SameDealings one three :=
  ⟨first.result.trans second.result, first.world.trans second.world,
    first.calls.trans second.calls⟩

/-- In every session, the operation makes no call and leaves the world of the store. -/
def Talks (action : Operation σ α) : Prop :=
  ∀ session, (action.run session).world.world = session.world ∧
    dealings (action.run session).events = []

namespace Talks

/-- Who only reads has no dealings to tell apart. -/
theorem ofReads {action : Operation σ α} (reads : Effect.Reads action) : Talks action := by
  intro session
  obtain ⟨same, silent⟩ := reads session
  rw [same, silent]
  exact ⟨rfl, rfl⟩

/-- An event that calls nothing has none. -/
theorem emit {event : Event} (unlike : event.isCall = false) :
    Talks (Effect.emit event : Operation σ Unit) := by
  intro session
  rw [Effect.run_emit]
  exact ⟨rfl, by simp [dealings, unlike]⟩

theorem log (level : Level) (logger message : Text) :
    Talks (Session.log level logger message : Operation σ Unit) :=
  emit rfl

theorem print (text : Text) : Talks (Session.print text : Operation σ Unit) :=
  emit rfl

theorem silence : Talks (Session.silence : Operation σ Unit) :=
  fun _ => ⟨rfl, rfl⟩

theorem setLogMessage (message : Option Text) :
    Talks (Session.setLogMessage message : Operation σ Unit) :=
  fun _ => ⟨rfl, rfl⟩

/-- A sequence talks if its parts do. -/
theorem bind {action : Operation σ α} {next : α → Operation σ β} (first : Talks action)
    (second : ∀ result, Talks (next result)) : Talks (action >>= next) := by
  intro session
  refine Effect.run_bind_induction
    (motive := fun (start : Session σ) trail finish =>
      finish.world = start.world ∧ dealings trail = [])
    ?_ (first session) fun result _ => second result _
  rintro _ _ _ _ _ ⟨same, silent⟩ ⟨later, quiet⟩
  exact ⟨later.trans same, by simp [silent, quiet]⟩

/-- A loop talks if its steps do. -/
theorem forEach {members : List α} {step : α → Operation σ Unit}
    (each : ∀ member, Talks (step member)) : Talks (Effect.forEach members step) :=
  Effect.forEach_induction (ofReads (.pure ())) (fun _ _ first next => first.bind fun _ => next)
    fun member _ => each member

/-- Behind a step that only talks, the rest deals as if it stood alone. -/
theorem sameDealings {action : Operation σ α} (talks : Talks action) (next : α → Operation σ β)
    {session : Session σ} {first : α} (ended : (action.run session).result = .ok first) :
    ∃ context, SameDealings ((action >>= next).run session)
      ((next first).run ⟨context, session.world⟩) := by
  obtain ⟨same, silent⟩ := talks session
  refine ⟨(action.run session).world.context, ?_⟩
  rw [← same, Effect.run_bind, ended]
  exact ⟨rfl, rfl, by simp [silent]⟩

/-- A step that is taken on a condition, only talks and never stops makes no difference. -/
theorem sameDealings_if {action : Operation σ Unit} (talks : Talks action)
    (goes : ∀ session, (action.run session).result = .ok ()) (condition : Prop)
    [Decidable condition] (next : Unit → Operation σ β) (session : Session σ) :
    ∃ context, SameDealings ((if condition then action >>= next else next ()).run session)
      ((next ()).run ⟨context, session.world⟩) := by
  split
  · exact talks.sameDealings next (goes session)
  · exact ⟨session.context, rfl, rfl, rfl⟩

end Talks

/-- What only talks in the end, and never stops, makes no difference. -/
theorem sameDealings_bind {action : Operation σ Unit} {last : Unit → Operation σ Unit}
    (talks : ∀ result, Talks (last result))
    (goes : ∀ session, ((last ()).run session).result = .ok ()) (session : Session σ) :
    SameDealings ((action >>= last).run session) (action.run session) := by
  rw [Effect.run_bind]
  cases ended : (action.run session).result with
  | error reason => exact ⟨ended.symm, rfl, rfl⟩
  | ok done =>
      obtain ⟨same, silent⟩ := talks () (action.run session).world
      exact ⟨(goes _).trans ended.symm, same, by simp [silent]⟩

/-- To apply a shelf asks the store once. -/
theorem run_askApply (backend : Backend σ) (name root : Text) (keepLocal dryRun : Bool)
    (session : Session σ) :
    let applied := (backend.store.apply name root keepLocal dryRun).run session.world
    (askApply backend name root keepLocal dryRun).run session =
      ⟨applied.result, { session with world := applied.world },
        .asked (.apply name root keepLocal dryRun) ::
          applied.events.filterMap session.context.admit?⟩ := rfl

end Session

end PatchShelf
