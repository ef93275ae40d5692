/-
Module: PatchShelf.Proofs.SideBySide
Purpose: Two operations in sessions that differ in whether progress is reported.
Main exports:
  Session.askedOf, Session.Alike, Session.SideBySide, Session.Concur, Session.Concur.bind,
  Session.Says, Session.Mute, Session.Mute.bind
-/
import PatchShelf.Proofs.Session

/-!
Whether progress is reported is known to the session and not to the store.  Two operations
that ask their stores for the same, from sessions alike in everything else, get the same
answers and leave sessions alike.
-/

namespace PatchShelf

/-- The call of the store that an event is, if it is one. -/
def Event.asked? : Event → Option StoreCall
  | activity _ => none
  | asked call => some call
  | summarized _ => none
  | printed _ => none
  | warned _ => none

namespace Session

variable {σ α β : Type}

/-- The calls of the store in a trail, in their order. -/
def askedOf (trail : List Event) : List StoreCall :=
  trail.filterMap Event.asked?

@[simp] theorem askedOf_nil : askedOf [] = [] := rfl

@[simp] theorem askedOf_append (first second : List Event) :
    askedOf (first ++ second) = askedOf first ++ askedOf second :=
  List.filterMap_append

/-- The work of a store asks for nothing. -/
@[simp] theorem askedOf_admitted (context : Context) (trail : List Activity) :
    askedOf (trail.filterMap context.admit?) = [] :=
  Context.filterMap_admitted (fun _ => rfl) context trail

/-! ### Two runs -/

/-- The sessions differ at most in whether progress is reported. -/
structure Alike (one two : Session σ) : Prop where
  world : one.world = two.world
  logMessage : one.context.logMessage = two.context.logMessage

/-- A session is like itself. -/
theorem Alike.refl (session : Session σ) : Alike session session :=
  ⟨rfl, rfl⟩

/-- Two runs ask the store for the same and end in the same way, with sessions alike. -/
structure SideBySide (one two : Outcome Event (Session σ) α) : Prop where
  result : one.result = two.result
  alike : Alike one.world two.world
  asked : askedOf one.events = askedOf two.events

/-- From sessions alike, the operations run side by side. -/
def Concur (one two : Operation σ α) : Prop :=
  ∀ left right, Alike left right → SideBySide (one.run left) (two.run right)

namespace Concur

/-- An operation that only reads runs side by side with itself if it does not see whether progress
is reported. -/
theorem ofReads {action : Operation σ α} (reads : Effect.Reads action)
    (blind : ∀ left right, Alike left right →
      (action.run left).result = (action.run right).result) : Concur action action := by
  intro left right alike
  have same := blind left right alike
  rw [reads.run_eq left, reads.run_eq right]
  exact ⟨same, alike, rfl⟩

theorem pure (result : α) : Concur (Pure.pure result : Operation σ α) (Pure.pure result) :=
  ofReads (.pure _) fun _ _ _ => rfl

theorem fail (failure : Failure) :
    Concur (Effect.fail failure : Operation σ α) (Effect.fail failure) :=
  ofReads (.fail _) fun _ _ _ => rfl

theorem ofChecked (checked : Except Failure α) :
    Concur (Effect.ofChecked checked : Operation σ α) (Effect.ofChecked checked) := by
  refine ofReads (.ofChecked _) fun left right _ => ?_
  rw [Effect.run_ofChecked, Effect.run_ofChecked]

theorem ofAccess (access : Except Fault α) :
    Concur (Effect.ofAccess access : Operation σ α) (Effect.ofAccess access) := by
  refine ofReads (.ofAccess _) fun left right _ => ?_
  rw [Effect.run_ofAccess, Effect.run_ofAccess]

theorem emit (event : Event) : Concur (Effect.emit event : Operation σ Unit) (Effect.emit event) :=
  fun _ _ alike => ⟨rfl, alike, rfl⟩

/-- Whether a message is logged does not depend on the report of progress. -/
theorem log (level : Level) (logger message : Text) :
    Concur (Session.log level logger message : Operation σ Unit)
      (Session.log level logger message) :=
  emit _

/-- The store sees its own world only. -/
theorem consult (action : Effect Activity σ α) :
    Concur (Session.consult action) (Session.consult action) := by
  rintro ⟨context, world⟩ ⟨other, same⟩ ⟨rfl, logMessage⟩
  exact ⟨rfl, ⟨rfl, logMessage⟩, by simp [Session.consult, Effect.run]⟩

/-- Both sessions get the same message, so they stay alike. -/
theorem setLogMessage (message : Option Text) :
    Concur (Session.setLogMessage message : Operation σ Unit) (Session.setLogMessage message) :=
  fun _ _ alike => ⟨rfl, ⟨alike.world, rfl⟩, rfl⟩

/-- Two sequences run side by side if their parts do, the later ones for every result of the first.
-/
theorem bind {one two : Operation σ α} {onwards after : α → Operation σ β}
    (first : Concur one two) (later : ∀ result, Concur (onwards result) (after result)) :
    Concur (one >>= onwards) (two >>= after) := by
  intro left right alike
  obtain ⟨same, between, asked⟩ := first left right alike
  rw [Effect.run_bind, Effect.run_bind, ← same]
  cases (one.run left).result with
  | error reason => exact ⟨rfl, between, asked⟩
  | ok result =>
      obtain ⟨ends, ending, more⟩ := later result _ _ between
      exact ⟨ends, ending, by simp [asked, more]⟩

/-- By induction on its members, a loop runs side by side with itself if its steps do. -/
theorem forEach {members : List α} {step : α → Operation σ Unit}
    (each : ∀ member, Concur (step member) (step member)) :
    Concur (Effect.forEach members step) (Effect.forEach members step) :=
  Effect.forEach_induction (motive := fun action => Concur action action) (pure ())
    (fun _ _ first next => first.bind fun _ => next) fun member _ => each member

/-- What is done at the end runs side by side whether the first part ended well or not. -/
theorem ensuring {action : Operation σ α} {last : Operation σ Unit}
    (first : Concur action action) (final : Concur last last) :
    Concur (Effect.ensuring action last) (Effect.ensuring action last) := by
  have attempted : Concur (Effect.attempt action) (Effect.attempt action) := by
    intro left right alike
    obtain ⟨same, between, asked⟩ := first left right alike
    exact ⟨congrArg Except.ok same, between, asked⟩
  refine attempted.bind fun ended => final.bind fun _ => ?_
  cases ended with
  | error reason => exact ofReads (.stop reason) fun _ _ _ => rfl
  | ok result => exact pure result

/-- The message that is set and taken back is the same on both sides. -/
theorem withLogMessage {action : Operation σ α} (message : Option Text)
    (concur : Concur action action) :
    Concur (Session.withLogMessage message action) (Session.withLogMessage message action) := by
  cases message with
  | none => exact concur
  | some text =>
      exact (setLogMessage _).bind fun _ =>
        concur.ensuring ((setLogMessage none).bind fun _ => log _ _ _)

/-- To report no progress any more makes no difference to what comes. -/
theorem silence_bind {onwards : Unit → Operation σ β} {other : Operation σ β}
    (later : Concur (onwards ()) other) : Concur (Session.silence >>= onwards) other := by
  intro left right alike
  exact later _ _ ⟨alike.world, alike.logMessage⟩

/-- To print makes no difference to the store. -/
theorem pure_print (text : Text) :
    Concur (Pure.pure () : Operation σ Unit) (Session.print text) :=
  fun _ _ alike => ⟨rfl, alike, rfl⟩

/-- The call itself and what the store makes of it are the same on both sides. -/
theorem askList (backend : Backend σ) (root : Text) :
    Concur (Session.askList backend root) (Session.askList backend root) :=
  (emit _).bind fun _ => consult _

/-- A call to delete a shelf and what the store makes of it are the same on both sides. -/
theorem askDelete (backend : Backend σ) (name root : Text) (dryRun : Bool) :
    Concur (Session.askDelete backend name root dryRun)
      (Session.askDelete backend name root dryRun) :=
  (emit _).bind fun _ => consult _

/-- A call to apply a shelf and what the store makes of it are the same on both sides. -/
theorem askApply (backend : Backend σ) (name root : Text) (keepLocal dryRun : Bool) :
    Concur (Session.askApply backend name root keepLocal dryRun)
      (Session.askApply backend name root keepLocal dryRun) :=
  (emit _).bind fun _ => consult _

/-- A request takes the log message from the context, where both have the same. -/
theorem askCreate (backend : Backend σ) (request : Option Text → CreateRequest) :
    Concur (Session.askCreate backend request) (Session.askCreate backend request) := by
  intro left right alike
  have asks : Concur
      (Effect.emit (.asked (.create (request left.context.logMessage))) >>= fun _ =>
        Session.consult (backend.store.create (request left.context.logMessage)))
      (Effect.emit (.asked (.create (request left.context.logMessage))) >>= fun _ =>
        Session.consult (backend.store.create (request left.context.logMessage))) :=
    (emit _).bind fun _ => consult _
  rw [Session.askCreate, Effect.Reads.look.run_bind, Effect.Reads.look.run_bind]
  simp only [Effect.run_look]
  rw [← alike.logMessage]
  exact asks left right alike

end Concur

/-! ### What a run says -/

/-- Run in this session, the operation leaves allowed events only. -/
def Says (allowed : Event → Prop) (action : Operation σ α) (session : Session σ) : Prop :=
  ∀ event ∈ (action.run session).events, allowed event

namespace Says

variable {allowed : Event → Prop} {session : Session σ}

/-- Who leaves no events says nothing that is not allowed. -/
theorem ofSilent {action : Operation σ α} (silent : Effect.Silent action) :
    Says allowed action session := by
  intro event member
  rw [silent session] at member
  cases member

theorem ofReads {action : Operation σ α} (reads : Effect.Reads action) :
    Says allowed action session :=
  ofSilent (.ofReads reads)

theorem emit {event : Event} (holds : allowed event) :
    Says allowed (Effect.emit event : Operation σ Unit) session := by
  intro other member
  obtain rfl := List.mem_singleton.1 member
  exact holds

/-- The second part is looked at only from where a first one that ended well leaves the session. -/
theorem bind {action : Operation σ α} {next : α → Operation σ β}
    (first : Says allowed action session)
    (later : ∀ result, (action.run session).result = .ok result →
      Says allowed (next result) (action.run session).world) :
    Says allowed (action >>= next) session := by
  intro event member
  rw [Effect.run_bind] at member
  cases ended : (action.run session).result with
  | error reason =>
      rw [ended] at member
      exact first event member
  | ok result =>
      rw [ended] at member
      rcases List.mem_append.1 member with early | late
      · exact first event early
      · exact later result ended event late

/-- Where the first part only reads, the second one starts in the same session. -/
theorem bind_reads {action : Operation σ α} {next : α → Operation σ β}
    (reads : Effect.Reads action)
    (later : ∀ result, (action.run session).result = .ok result →
      Says allowed (next result) session) :
    Says allowed (action >>= next) session := by
  refine bind (ofReads reads) fun result ended => ?_
  rw [(reads session).1]
  exact later result ended

/-- What is allowed may be widened. -/
theorem weaken {more : Event → Prop} {action : Operation σ α}
    (holds : Says allowed action session) (implies : ∀ event, allowed event → more event) :
    Says more action session :=
  fun event member => implies event (holds event member)

end Says

/-- The event is no progress event, and if it prints a result then one of the allowed lines. -/
def Shows (line : Text → Prop) : Event → Prop
  | .activity (.notified _) => False
  | .activity (.logged _) => True
  | .activity (.ran _) => True
  | .asked _ => True
  | .summarized _ => True
  | .printed text => line text
  | .warned _ => True

/-- More lines may be allowed of what is printed. -/
theorem Shows.weaken {line more : Text → Prop} (implies : ∀ text, line text → more text)
    {event : Event} (shows : Shows line event) : Shows more event := by
  cases event with
  | printed text => exact implies text shows
  | activity activity => cases activity <;> exact shows
  | asked call => trivial
  | summarized patchPath => trivial
  | warned text => trivial

/-- Where no progress is reported, the operation reports none from there on and prints no
result. -/
def Mute (action : Operation σ α) : Prop :=
  ∀ session, session.context.notify = false →
    (action.run session).world.context.notify = false ∧
      Says (Shows fun _ => False) action session

namespace Mute

theorem ofReads {action : Operation σ α} (reads : Effect.Reads action) : Mute action := by
  intro session quiet
  rw [(reads session).1]
  exact ⟨quiet, .ofReads reads⟩

theorem emit {event : Event} (unseen : Shows (fun _ => False) event) :
    Mute (Effect.emit event : Operation σ Unit) :=
  fun _ quiet => ⟨quiet, .emit unseen⟩

theorem log (level : Level) (logger message : Text) :
    Mute (Session.log level logger message : Operation σ Unit) :=
  emit trivial

theorem setLogMessage (message : Option Text) :
    Mute (Session.setLogMessage message : Operation σ Unit) :=
  fun _ quiet => ⟨quiet, .ofSilent (.change _)⟩

/-- Progress of the store is not admitted. -/
theorem consult (action : Effect Activity σ α) : Mute (Session.consult action) := by
  intro session quiet
  refine ⟨quiet, fun event member => ?_⟩
  obtain ⟨activity, -, admitted⟩ := List.mem_filterMap.1 member
  cases activity with
  | notified shown =>
      rw [Context.admit?, quiet] at admitted
      cases admitted
  | logged record =>
      obtain rfl := Option.some.inj admitted
      trivial
  | ran call =>
      obtain rfl := Option.some.inj admitted
      trivial

/-- A sequence is mute if its parts are; the first one leaves progress unreported. -/
theorem bind {action : Operation σ α} {next : α → Operation σ β} (first : Mute action)
    (second : ∀ result, Mute (next result)) : Mute (action >>= next) := by
  intro session quiet
  obtain ⟨still, unseen⟩ := first session quiet
  refine ⟨?_, unseen.bind fun result _ => (second result _ still).2⟩
  rw [Effect.run_bind]
  cases (action.run session).result with
  | error reason => exact still
  | ok result => exact (second result _ still).1

/-- By induction on its members, so is a loop of mute steps. -/
theorem forEach {members : List α} {step : α → Operation σ Unit}
    (each : ∀ member, Mute (step member)) : Mute (Effect.forEach members step) :=
  Effect.forEach_induction (ofReads (.pure ())) (fun _ _ first next => first.bind fun _ => next)
    fun member _ => each member

/-- To be mute passes through what is done at the end. -/
theorem ensuring {action : Operation σ α} {last : Operation σ Unit} (first : Mute action)
    (final : Mute last) : Mute (Effect.ensuring action last) := by
  have attempted : Mute (Effect.attempt action) := first
  refine attempted.bind fun ended => final.bind fun _ => ?_
  cases ended with
  | error reason => exact ofReads (.stop reason)
  | ok result => exact ofReads (.pure result)

/-- The message that is set and taken back has no part in it. -/
theorem withLogMessage {action : Operation σ α} (message : Option Text) (mute : Mute action) :
    Mute (Session.withLogMessage message action) := by
  cases message with
  | none => exact mute
  | some text =>
      exact (setLogMessage _).bind fun _ =>
        mute.ensuring ((setLogMessage none).bind fun _ => log _ _ _)

/-- Behind the command to report no progress, the rest is mute whatever came before. -/
theorem silence_bind {next : Unit → Operation σ β} (mute : Mute (next ())) (session : Session σ) :
    Says (Shows fun _ => False) (Session.silence >>= next) session :=
  .bind (.ofSilent (.change _)) fun _ _ => (mute _ rfl).2

/-- The notices of the store are dropped where no progress is reported. -/
theorem askDelete (backend : Backend σ) (name root : Text) (dryRun : Bool) :
    Mute (Session.askDelete backend name root dryRun) :=
  (emit (by trivial)).bind fun _ => consult _

/-- The notices of applying a shelf are dropped where no progress is reported. -/
theorem askApply (backend : Backend σ) (name root : Text) (keepLocal dryRun : Bool) :
    Mute (Session.askApply backend name root keepLocal dryRun) :=
  (emit (by trivial)).bind fun _ => consult _

/-- The notices of making a shelf are dropped where no progress is reported. -/
theorem askCreate (backend : Backend σ) (request : Option Text → CreateRequest) :
    Mute (Session.askCreate backend request) :=
  (ofReads .look).bind fun _ => (emit (by trivial)).bind fun _ => consult _

end Mute

end Session

end PatchShelf
