/-
Module: PatchShelf.Session
Purpose: The client's side of a store: context, calls and visible events.
Main exports:
  Context, Session, StoreCall, Event, Backend, Session.askList,
  Session.askCreate, Session.askDelete, Session.askApply,
  Session.withLogMessage
-/
import PatchShelf.Store

/-!
A session pairs the world of a store with a context that lasts from one command
to the next: whether progress is reported, and the log message that new shelves
get.  Every call of the store is recorded as an event before it is made.
Progress reaches the user only while it is reported.
-/

namespace PatchShelf

/-- What lasts from one command to the next. -/
structure Context where
  notify : Bool
  logMessage : Option Text
deriving Repr, DecidableEq, Inhabited

/-- A context and the world of a store. -/
structure Session (σ : Type) where
  context : Context
  world : σ

/-- A call of a store. -/
inductive StoreCall where
  | list (root : Text)
  | create (request : CreateRequest)
  | delete (name root : Text) (dryRun : Bool)
  | apply (name root : Text) (keepLocal dryRun : Bool)
deriving Repr, DecidableEq

/-- What happens in a session. -/
inductive Event where
  | activity (activity : Activity)
  | asked (call : StoreCall)
  | summarized (patchPath : Text)
  | printed (text : Text)
  | warned (text : Text)
deriving Repr, DecidableEq

/-- The event that an activity of the store means in a context, if it shows. -/
def Context.admit? (context : Context) : Activity → Option Event
  | .notified event =>
    if context.notify then some (.activity (.notified event)) else none
  | .logged record => some (.activity (.logged record))
  | .ran call => some (.activity (.ran call))

/-- An activity that a context admits shows as what it is. -/
theorem Context.eq_of_admit? {context : Context} {activity : Activity} {event : Event}
    (admitted : context.admit? activity = some event) : event = .activity activity := by
  cases activity with
  | notified shown =>
      rw [admit?] at admitted
      split at admitted
      · exact (Option.some.inj admitted).symm
      · cases admitted
  | logged record => exact (Option.some.inj admitted).symm
  | ran call => exact (Option.some.inj admitted).symm

/-- A store together with a source of patch summaries. -/
structure Backend (σ : Type) where
  store : ShelfStore σ
  summarize : (patchPath : Text) → Effect Activity σ Text

namespace Session

variable {σ α : Type}

/-- An operation in a session. -/
abbrev Operation (σ α : Type) : Type := Effect Event (Session σ) α

/-- What an audience of a session is to its store: it can refuse what the context admits. -/
def overheard (audience : Audience Event) (context : Context) : Audience Activity :=
  fun activity => (audience (.activity activity)).filter fun _ => (context.admit? activity).isSome

/-- The store does not notice an audience that takes all that the context admits. -/
theorem takes_overheard {audience : Audience Event} {context : Context} {events : List Activity}
    (takes : audience.Takes (events.filterMap context.admit?)) :
    (overheard audience context).Takes events := by
  intro activity member
  cases admitted : context.admit? activity with
  | none => simp [overheard, admitted]
  | some event =>
      rw [Context.eq_of_admit? admitted] at admitted
      have accepted := takes _ (List.mem_filterMap.2 ⟨activity, member, admitted⟩)
      simp [overheard, accepted]

/-- Let the world of the store do something. -/
def consult (action : Effect Activity σ α) : Operation σ α where
  perform audience session :=
    let outcome := action.perform (overheard audience session.context) session.world
    ⟨outcome.result, { session with world := outcome.world },
      outcome.events.filterMap session.context.admit?⟩
  honest audience session takes := by
    have same := action.honest (overheard audience session.context) session.world
      (takes_overheard takes)
    exact congrArg (fun outcome : Outcome Activity σ α => (⟨outcome.result,
      { session with world := outcome.world }, outcome.events.filterMap session.context.admit?⟩ :
        Outcome Event (Session σ) α)) same

/-- Print a text and end the line. -/
def print (text : Text) : Operation σ Unit :=
  Effect.emit (.printed text)

/-- Write to the log. -/
def log (level : Level) (logger message : Text) : Operation σ Unit :=
  Effect.emit (.activity (.logged ⟨level, logger, message⟩))

/-- Report no progress from here on. -/
def silence : Operation σ Unit :=
  Effect.change fun session =>
    { session with context := { session.context with notify := false } }

/-- Set the log message that new shelves get. -/
def setLogMessage (message : Option Text) : Operation σ Unit :=
  Effect.change fun session =>
    { session with context := { session.context with logMessage := message } }

/-- Ask the store for all records. -/
def askList (backend : Backend σ) (root : Text) : Operation σ Shelves := do
  Effect.emit (.asked (.list root))
  consult (backend.store.list root)

/-- Ask the store for a new shelf with the log message of the context. -/
def askCreate (backend : Backend σ) (request : Option Text → CreateRequest) :
    Operation σ Unit := do
  let session ← Effect.look
  let complete := request session.context.logMessage
  Effect.emit (.asked (.create complete))
  consult (backend.store.create complete)

/-- Ask the store to delete a shelf. -/
def askDelete (backend : Backend σ) (name root : Text) (dryRun : Bool) : Operation σ Unit := do
  Effect.emit (.asked (.delete name root dryRun))
  consult (backend.store.delete name root dryRun)

/-- Ask the store to apply a shelf. -/
def askApply (backend : Backend σ) (name root : Text) (keepLocal dryRun : Bool) :
    Operation σ Unit := do
  Effect.emit (.asked (.apply name root keepLocal dryRun))
  consult (backend.store.apply name root keepLocal dryRun)

/-- Ask for the summary of a patch. -/
def askSummary (backend : Backend σ) (patchPath : Text) : Operation σ Text := do
  Effect.emit (.summarized patchPath)
  consult (backend.summarize patchPath)

/-- The name under which commands write to the log. -/
def commandsLogger : Text := "shelving.core.commands"

/-- Run an operation with a log message in the context.  However the operation
ends, the message is gone afterwards; without a message the context is left as
it is. -/
def withLogMessage (message : Option Text) (action : Operation σ α) : Operation σ α :=
  match message with
  | none => action
  | some text => do
    setLogMessage (some text)
    Effect.ensuring action do
      setLogMessage none
      log .debug commandsLogger "Released log message"

end Session

end PatchShelf
