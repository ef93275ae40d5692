/-
Module: PatchShelf.Proofs.Commands.Conduct
Purpose: How a run of a command goes, for the store and for the user.
Main exports:
  Session.Course, Session.Besides, StoreCall.confirmation?, Commands.Attempt,
  Commands.Conduct, Commands.conducts_run
-/
import PatchShelf.Proofs.Commands.Quiet
import PatchShelf.Proofs.Store.Answers

/-!
A command checks its arguments, asks the store and tells the user.  The checks come to nothing
but a refusal, so there are few ways in which a run can go: it is refused, it makes one call
that changes shelves, it lists, or it lists and then applies the youngest shelf.
-/

namespace PatchShelf

/-- The text that an event prints as a result, if it does. -/
def Event.printed? : Event → Option Text
  | activity _ => none
  | asked _ => none
  | summarized _ => none
  | printed text => some text
  | warned _ => none

/-- The line that confirms a call, if it is one that changes shelves. -/
def StoreCall.confirmation? : StoreCall → Option Text
  | list _ => none
  | create request => some ("shelved" ++ " '" ++ request.name ++ "'")
  | delete name _ _ => some ("deleted" ++ " '" ++ name ++ "'")
  | apply name _ _ _ => some ("unshelved" ++ " '" ++ name ++ "'")

namespace Session

variable {σ α β : Type}

/-- The results that a trail prints, in their order. -/
def printedOf (trail : List Event) : List Text :=
  trail.filterMap Event.printed?

@[simp] theorem printedOf_nil : printedOf [] = [] := rfl

@[simp] theorem printedOf_append (first second : List Event) :
    printedOf (first ++ second) = printedOf first ++ printedOf second :=
  List.filterMap_append

/-- The printed lines of a trail are those of its events that print. -/
theorem mem_printedOf_iff (text : Text) (trail : List Event) :
    text ∈ printedOf trail ↔ .printed text ∈ trail := by
  rw [printedOf, List.mem_filterMap]
  constructor
  · rintro ⟨event, member, prints⟩
    cases event with
    | printed other =>
        obtain rfl := Option.some.inj prints
        exact member
    | activity _ => cases prints
    | asked _ => cases prints
    | summarized _ => cases prints
    | warned _ => cases prints
  · exact fun member => ⟨_, member, rfl⟩

/-- The work of a store prints nothing. -/
@[simp] theorem printedOf_admitted (context : Context) (trail : List Activity) :
    printedOf (trail.filterMap context.admit?) = [] :=
  Context.filterMap_admitted (fun _ => rfl) context trail

/-! ### What a run comes to -/

/-- What a run comes to: its calls of the store, what it prints, how it ends, and with which
world of the store and which log message. -/
structure Course (σ : Type) where
  asked : List StoreCall
  printed : List Text
  result : Except Stop Unit
  world : σ
  logMessage : Option Text

/-- The course of a run. -/
def courseOf (outcome : Outcome Event (Session σ) Unit) : Course σ :=
  ⟨askedOf outcome.events, printedOf outcome.events, outcome.result, outcome.world.world,
    outcome.world.context.logMessage⟩

/-- The same course with calls and prints before it. -/
def Course.behind (course : Course σ) (asked : List StoreCall) (printed : List Text) : Course σ :=
  { course with asked := asked ++ course.asked, printed := printed ++ course.printed }

/-- Such a run asks the store for nothing, keeps the log message, prints allowed lines only, and
leaves a world that the one before may become. -/
structure Unasking (line : Text → Prop) (becomes : σ → σ → Prop) (session : Session σ)
    (outcome : Outcome Event (Session σ) α) : Prop where
  asked : askedOf outcome.events = []
  printed : ∀ text ∈ printedOf outcome.events, line text
  logMessage : outcome.world.context.logMessage = session.context.logMessage
  world : becomes session.world outcome.world.world

/-- All runs of the operation are such. -/
def Besides (line : Text → Prop) (becomes : σ → σ → Prop) (action : Operation σ α) : Prop :=
  ∀ session, Unasking line becomes session (action.run session)

namespace Besides

variable {line : Text → Prop} {becomes : σ → σ → Prop}

/-- Where every world may become itself, an operation that only reads is such. -/
theorem ofReads (refl : ∀ world, becomes world world) {action : Operation σ α}
    (reads : Effect.Reads action) : Besides line becomes action := by
  intro session
  rw [reads.run_eq]
  exact ⟨rfl, nofun, rfl, refl _⟩

/-- One event that neither asks nor prints a line that is not allowed is such. -/
theorem emit (refl : ∀ world, becomes world world) {event : Event} (unasked : event.asked? = none)
    (allowed : ∀ text, event.printed? = some text → line text) :
    Besides line becomes (Effect.emit event : Operation σ Unit) := by
  intro session
  refine ⟨by simp [askedOf, unasked], fun text member => ?_, rfl, refl _⟩
  obtain ⟨other, same, prints⟩ := List.mem_filterMap.1 member
  exact allowed text (List.mem_singleton.1 same ▸ prints)

theorem log (refl : ∀ world, becomes world world) (level : Level) (logger message : Text) :
    Besides line becomes (Session.log level logger message : Operation σ Unit) :=
  emit refl rfl nofun

/-- To print an allowed line is such. -/
theorem print (refl : ∀ world, becomes world world) {text : Text} (allowed : line text) :
    Besides line becomes (Session.print text : Operation σ Unit) := by
  refine emit refl rfl fun other prints => ?_
  obtain rfl := Option.some.inj prints
  exact allowed

theorem silence (refl : ∀ world, becomes world world) :
    Besides line becomes (Session.silence : Operation σ Unit) :=
  fun _ => ⟨rfl, nofun, rfl, refl _⟩

/-- An outside action leaves the world that it leaves, and its trail asks and prints nothing. -/
theorem consult {action : Effect Activity σ α}
    (goes : ∀ world, becomes world (action.run world).world) :
    Besides line becomes (Session.consult action) := by
  intro session
  refine ⟨askedOf_admitted _ _, fun text member => ?_, rfl, goes _⟩
  have none : printedOf ((Session.consult action).run session).events = [] :=
    printedOf_admitted _ _
  rw [none] at member
  cases member

/-- More lines may be allowed. -/
theorem weaken {more : Text → Prop} {action : Operation σ α}
    (besides : Besides line becomes action) (implies : ∀ text, line text → more text) :
    Besides more becomes action := by
  intro session
  obtain ⟨asked, printed, logMessage, world⟩ := besides session
  exact ⟨asked, fun text member => implies text (printed text member), logMessage, world⟩

/-- A sequence of two such is such, where the worlds may become one another in turn. -/
theorem bind (trans : ∀ one two three, becomes one two → becomes two three → becomes one three)
    {action : Operation σ α} {next : α → Operation σ β} (first : Besides line becomes action)
    (second : ∀ result, (∃ session, (action.run session).result = .ok result) →
      Besides line becomes (next result)) :
    Besides line becomes (action >>= next) := by
  intro session
  obtain ⟨unasked, allowed, kept, goes⟩ := first session
  rw [Effect.run_bind]
  cases ended : (action.run session).result with
  | error reason => exact ⟨unasked, allowed, kept, goes⟩
  | ok result =>
      obtain ⟨later, more, still, on⟩ := second result ⟨session, ended⟩ (action.run session).world
      refine ⟨by simp [unasked, later], fun text member => ?_, still.trans kept,
        trans _ _ _ goes on⟩
      rw [printedOf_append] at member
      exact (List.mem_append.1 member).elim (allowed text) (more text)

/-- By induction on its members, so is a loop. -/
theorem forEach (refl : ∀ world, becomes world world)
    (trans : ∀ one two three, becomes one two → becomes two three → becomes one three)
    (members : List α) {step : α → Operation σ Unit}
    (each : ∀ member, Besides line becomes (step member)) :
    Besides line becomes (Effect.forEach members step) :=
  Effect.forEach_induction (ofReads refl (.pure ()))
    (fun _ _ first next => first.bind trans fun _ _ => next) fun member _ => each member

end Besides

/-- The operation asks for nothing, prints nothing, and leaves the world of the store. -/
def Unheard (action : Operation σ α) : Prop :=
  Besides (fun _ => False) Eq action

/-- Where no line is allowed, none is printed. -/
theorem Unasking.printed_nil {becomes : σ → σ → Prop} {session : Session σ}
    {outcome : Outcome Event (Session σ) α}
    (aside : Unasking (fun _ => False) becomes session outcome) :
    printedOf outcome.events = [] :=
  List.eq_nil_iff_forall_not_mem.2 aside.printed

namespace Unheard

/-- Who only reads is unheard. -/
theorem ofReads {action : Operation σ α} (reads : Effect.Reads action) : Unheard action :=
  Besides.ofReads (fun _ => rfl) reads

theorem log (level : Level) (logger message : Text) :
    Unheard (Session.log level logger message : Operation σ Unit) :=
  Besides.log (fun _ => rfl) level logger message

theorem silence : Unheard (Session.silence : Operation σ Unit) :=
  Besides.silence fun _ => rfl

/-- An event that is neither a call nor a line is unheard. -/
theorem emit {event : Event} (unasked : event.asked? = none) (unprinted : event.printed? = none) :
    Unheard (Effect.emit event : Operation σ Unit) :=
  Besides.emit (fun _ => rfl) unasked fun _ prints => nomatch unprinted.symm.trans prints

/-- A sequence of unheard operations is unheard. -/
theorem bind {action : Operation σ α} {next : α → Operation σ β} (first : Unheard action)
    (second : ∀ result, Unheard (next result)) : Unheard (action >>= next) := by
  have trans (one two three : σ) : one = two → two = three → one = three := Eq.trans
  exact Besides.bind trans first fun result _ => second result

/-- A loop of unheard steps is unheard. -/
theorem forEach (members : List α) {step : α → Operation σ Unit}
    (each : ∀ member, Unheard (step member)) : Unheard (Effect.forEach members step) :=
  Besides.forEach (fun _ => rfl) (fun _ _ _ => Eq.trans) members each

/-- Behind something unheard, a run comes to what the rest comes to. -/
theorem courseOf_bind {action : Operation σ α} (unheard : Unheard action)
    (next : α → Operation σ Unit) (session : Session σ) :
    (∃ reason, courseOf ((action >>= next).run session) =
        ⟨[], [], .error reason, session.world, session.context.logMessage⟩) ∨
      ∃ result context, context.logMessage = session.context.logMessage ∧
        courseOf ((action >>= next).run session) =
          courseOf ((next result).run ⟨context, session.world⟩) := by
  have aside := unheard session
  have unprinted := aside.printed_nil
  obtain ⟨unasked, -, kept, same⟩ := aside
  rw [Effect.run_bind]
  cases (action.run session).result with
  | error reason =>
      refine .inl ⟨reason, ?_⟩
      simp only [courseOf, unasked, unprinted, kept, ← same]
  | ok result =>
      refine .inr ⟨result, (action.run session).world.context, kept, ?_⟩
      simp only [courseOf, askedOf_append, printedOf_append, unasked, unprinted, same,
        List.nil_append]

end Unheard

/-- Behind an operation that succeeds, a run comes to what the rest comes to, and more before. -/
theorem courseOf_bind_ok {action : Operation σ α} {next : α → Operation σ Unit}
    {session : Session σ} {result : α} (ended : (action.run session).result = .ok result) :
    courseOf ((action >>= next).run session) =
      (courseOf ((next result).run (action.run session).world)).behind
        (askedOf (action.run session).events) (printedOf (action.run session).events) := by
  rw [Effect.run_bind, ended]
  simp only [courseOf, Course.behind, askedOf_append, printedOf_append]

/-! ### The scope of a log message -/

/-- The session with a log message, if there is one to set. -/
def holding (session : Session σ) : (message : Option Text) → Session σ
  | none => session
  | some text => { session with context := { session.context with logMessage := some text } }

/-- In the scope of a message, the operation runs as in a context that has it; what is left of
the message is nothing. -/
theorem run_withLogMessage_some (text : Text) (action : Operation σ α) (session : Session σ) :
    let inside := action.run (session.holding (some text))
    (withLogMessage (some text) action).run session =
      ⟨inside.result,
        { inside.world with context := { inside.world.context with logMessage := none } },
        inside.events ++
          [.activity (.logged ⟨.debug, commandsLogger, "Released log message"⟩)]⟩ := by
  intro inside
  have set : (setLogMessage (some text) : Operation σ Unit).run session =
      ⟨.ok (), session.holding (some text), []⟩ := rfl
  show (setLogMessage (some text) >>= fun _ => Effect.ensuring action _).run session = _
  rw [Effect.run_bind_ok set, Effect.run_ensuring rfl]
  rfl

end Session

namespace Commands

open Session (Besides Course Operation Unheard askedOf courseOf printedOf)

variable {σ : Type} {backend : Backend σ} {options : Options}

/-! ### The ways of a run -/

/-- The line that tells which shelf was picked by age. -/
def pickedLine (name : Text) : Text :=
  "unshelving the youngest change, '" ++ name ++ "'"

/-- What is printed when a call has ended: its confirmation, if it succeeded and the command is
not quiet. -/
def told {α : Type} (options : Options) (line : Text) : Except Stop α → List Text
  | .ok _ => if options.quiet then [] else [line]
  | .error _ => []

/-- What the store sees of the message of the options and the one that was there, and what is
left of it. -/
def SeesMessage (options : Options) (before : Option Text) (call : StoreCall)
    (after : Option Text) : Prop :=
  match call with
  | .create request => request.logMessage = options.message.or before ∧
      after = if options.message.isSome then none else before
  | .list _ | .delete .. | .apply .. => after = before

/-- A run that is to change shelves: it is refused, or makes an allowed call for it. -/
inductive Attempt (backend : Backend σ) (options : Options) (allowed : StoreCall → Prop)
    (world : σ) (message : Option Text) : Course σ → Prop
  | refused (reason : Stop) :
      Attempt backend options allowed world message ⟨[], [], .error reason, world, message⟩
  | made (call : StoreCall) (line : Text) (after : Option Text) (holds : allowed call)
      (confirms : call.confirmation? = some line)
      (sees : SeesMessage options message call after)
      {outcome : Outcome Activity σ (Option Shelves)}
      (answered : (backend.store.perform call).run world = outcome) :
      Attempt backend options allowed world message
        ⟨[call], told options line outcome.result, outcome.result.map fun _ => (), outcome.world,
          after⟩

/-- The contents of a store are what neither listing it nor summarizing its patches changes. -/
structure KeepsContents {κ : Type} (backend : Backend σ) (contents : σ → κ) : Prop where
  list : ∀ root world, contents ((backend.store.list root).run world).world = contents world
  summarize : ∀ path world, contents ((backend.summarize path).run world).world = contents world

/-- The worlds have the same contents. -/
def SameContents (backend : Backend σ) (one two : σ) : Prop :=
  ∀ (κ : Type) (contents : σ → κ), KeepsContents backend contents → contents two = contents one

/-- A world has the contents that it has. -/
theorem SameContents.refl (world : σ) : SameContents backend world world :=
  fun _ _ _ => rfl

/-- To have the same contents passes on. -/
theorem SameContents.trans (one two three : σ) (first : SameContents backend one two)
    (second : SameContents backend two three) : SameContents backend one three :=
  fun κ contents keeps => (second κ contents keeps).trans (first κ contents keeps)

/-- The lines in summary of a patch: what was said of it, and an empty one. -/
inductive SummaryLine (backend : Backend σ) (patchPath : Text) : Text → Prop
  | said (world : σ) (summary : Text)
      (given : ((backend.summarize patchPath).run world).result = .ok summary) :
      SummaryLine backend patchPath (summary.dropEndWhile (·.isChar '\n'))
  | empty : SummaryLine backend patchPath []

/-- The lines of a listing: those of an entry, and those in summary of a patch. -/
inductive ListingLine (backend : Backend σ) : Text → Prop
  | entry (key : Text) (record : ShelfRecord) (now : Instant) :
      ListingLine backend (Listing.entryText key record now)
  | summary (patchPath : Text) {line : Text} (shown : SummaryLine backend patchPath line) :
      ListingLine backend line

/-- How a run of a command can go, from a world of the store and a log message. -/
inductive Conduct (backend : Backend σ) (options : Options) (world : σ)
    (message : Option Text) : Course σ → Prop
  | attempted {course : Course σ}
      (attempt : Attempt backend options (fun _ => True) world message course) :
      Conduct backend options world message course
  | listed (root : Text) (lines : List Text) (result : Except Stop Unit) (after : σ)
      (stops : ∀ reason, ((backend.store.list root).run world).result = .error reason →
        result = .error reason)
      (plain : ∀ line ∈ lines, ListingLine backend line)
      (same : SameContents backend world after) :
      Conduct backend options world message ⟨[.list root], lines, result, after, message⟩
  | picked (root name : Text) (records : Shelves)
      (listed : ((backend.store.list root).run world).result = .ok records)
      {course : Course σ}
      (attempt : Attempt backend options (· = .apply name root options.keepLocal options.dryRun)
        ((backend.store.list root).run world).world message course) :
      Conduct backend options world message (course.behind [.list root] [pickedLine name])

/-- In every session, the operation goes as an attempt goes. -/
def Attempts (backend : Backend σ) (options : Options) (allowed : StoreCall → Prop)
    (action : Operation σ Unit) : Prop :=
  ∀ session, Attempt backend options allowed session.world session.context.logMessage
    (courseOf (action.run session))

/-- In every session, the operation goes as a command goes. -/
def Conducts (backend : Backend σ) (options : Options) (action : Operation σ Unit) : Prop :=
  ∀ session, Conduct backend options session.world session.context.logMessage
    (courseOf (action.run session))

variable {α : Type} {allowed : StoreCall → Prop}

/-- More calls may be allowed. -/
theorem Attempt.weaken {more : StoreCall → Prop} {world : σ} {message : Option Text}
    {course : Course σ} (attempt : Attempt backend options allowed world message course)
    (implies : ∀ call, allowed call → more call) :
    Attempt backend options more world message course := by
  cases attempt with
  | refused reason => exact .refused reason
  | made call line after holds confirms sees answered =>
      exact .made call line after (implies call holds) confirms sees answered

/-- An attempt makes allowed calls only. -/
theorem Attempt.holds {world : σ} {message : Option Text} {course : Course σ}
    (attempt : Attempt backend options allowed world message course) :
    ∀ call ∈ course.asked, allowed call := by
  cases attempt with
  | refused reason => nofun
  | made call line after holds confirms sees answered =>
      intro other asked
      exact List.mem_singleton.1 asked ▸ holds

/-- What is unheard may come before an attempt. -/
theorem Attempts.bind {action : Operation σ α} {next : α → Operation σ Unit}
    (unheard : Unheard action) (goes : ∀ result, Attempts backend options allowed (next result)) :
    Attempts backend options allowed (action >>= next) := by
  intro session
  rcases unheard.courseOf_bind next session with ⟨reason, ends⟩ | ⟨result, context, kept, ends⟩
  · rw [ends]
    exact .refused reason
  · rw [ends, ← kept]
    exact goes result ⟨context, session.world⟩

/-- What is unheard may come before any command. -/
theorem Conducts.bind {action : Operation σ α} {next : α → Operation σ Unit}
    (unheard : Unheard action) (goes : ∀ result, Conducts backend options (next result)) :
    Conducts backend options (action >>= next) := by
  intro session
  rcases unheard.courseOf_bind next session with ⟨reason, ends⟩ | ⟨result, context, kept, ends⟩
  · rw [ends]
    exact .attempted (.refused reason)
  · rw [ends, ← kept]
    exact goes result ⟨context, session.world⟩

/-- To make one attempt is one of the ways a command goes. -/
theorem Attempts.conducts {action : Operation σ Unit}
    (goes : Attempts backend options allowed action) : Conducts backend options action :=
  fun session => .attempted ((goes session).weaken fun _ _ => trivial)

/-! ### Calls that change shelves -/

/-- The confirmation is the only line, and only without quiet. -/
theorem courseOf_confirm {answer : Type} (options : Options) (done name : Text) (result : answer)
    (session : Session σ) :
    courseOf ((confirm options done name).run session) =
      ⟨[], told options (done ++ " '" ++ name ++ "'") (.ok result), .ok (), session.world,
        session.context.logMessage⟩ := by
  rw [confirm, told]
  split
  · rfl
  · rfl

/-- Behind the call, the confirmation is printed if it succeeded. -/
theorem attempt_confirm {session : Session σ} {action : Operation σ Unit} {call : StoreCall}
    {done name : Text} {after : Option Text} (holds : allowed call)
    (confirms : call.confirmation? = some (done ++ " '" ++ name ++ "'"))
    (sees : SeesMessage options session.context.logMessage call after)
    (goes : courseOf (action.run session) =
      ⟨[call], [], ((backend.store.perform call).run session.world).result.map fun _ => (),
        ((backend.store.perform call).run session.world).world, after⟩) :
    Attempt backend options allowed session.world session.context.logMessage
      (courseOf ((action >>= fun _ => confirm options done name).run session)) := by
  have made : Attempt backend options allowed session.world session.context.logMessage _ :=
    .made call _ after holds confirms sees rfl
  obtain ⟨asked, printed, result, world, message⟩ := Course.mk.inj goes
  cases ended : ((backend.store.perform call).run session.world).result with
  | error reason =>
      rw [ended] at goes made result
      have same : courseOf ((action >>= fun _ => confirm options done name).run session) =
          courseOf (action.run session) := by
        rw [Effect.run_bind, result]
        simp only [Except.map, courseOf, result]
      rw [same, goes]
      exact made
  | ok answer =>
      rw [ended] at made result
      rw [Session.courseOf_bind_ok result, courseOf_confirm options done name answer, asked,
        printed, world, message]
      exact made

/-- To ask the store is to have the call made. -/
theorem courseOf_ask {call : StoreCall} {action : Effect Activity σ Unit}
    (performs : backend.store.perform call = action >>= fun _ => pure none)
    (session : Session σ) :
    courseOf ((Effect.emit (.asked call) >>= fun _ => Session.consult action).run session) =
      ⟨[call], [], ((backend.store.perform call).run session.world).result.map fun _ => (),
        ((backend.store.perform call).run session.world).world, session.context.logMessage⟩ := by
  have asked : (Effect.emit (.asked call) : Operation σ Unit).run session =
      ⟨.ok (), session, [.asked call]⟩ := rfl
  have consulted : courseOf ((Session.consult action).run session) =
      ⟨[], [], (action.run session.world).result, (action.run session.world).world,
        session.context.logMessage⟩ := by
    rw [courseOf]
    congr 1
    · exact Session.askedOf_admitted _ _
    · exact Session.printedOf_admitted _ _
  rw [Session.courseOf_bind_ok (congrArg Outcome.result asked), asked, consulted, performs,
    Effect.run_bind_pure]
  cases (action.run session.world).result with
  | error reason => rfl
  | ok done => rfl

/-- A warning about a target is not a line among the results. -/
theorem unheard_warnSkipped (target : Text) : Unheard (warnSkipped target : Operation σ Unit) :=
  .bind (.log _ _ _) fun _ => .emit rfl rfl

/-- To remove a shelf is one attempt to delete it. -/
theorem attempts_removeShelf (backend : Backend σ) (root : Text) (options : Options)
    (name : Text) (rest : List Argument) :
    Attempts backend options (· = .delete name root options.dryRun)
      (removeShelf backend root options name rest) := by
  refine .bind (.ofReads (.ofChecked _)) fun _ => .bind (.log _ _ _) fun _ => fun session => ?_
  exact attempt_confirm rfl rfl rfl (courseOf_ask rfl session)

/-- The scope of a message around the call leaves no message if it has set one. -/
theorem courseOf_askCreate (backend : Backend σ) (request : Option Text → CreateRequest)
    (message : Option Text) (session : Session σ) :
    let before := session.context.logMessage
    let call := StoreCall.create (request (message.or before))
    let outcome := (backend.store.perform call).run session.world
    courseOf ((Session.withLogMessage message (Session.askCreate backend request)).run session) =
      ⟨[call], [], outcome.result.map fun _ => (), outcome.world,
        if message.isSome then none else before⟩ := by
  have asks (session : Session σ) :
      courseOf ((Session.askCreate backend request).run session) =
        courseOf ((Effect.emit (.asked (.create (request session.context.logMessage))) >>= fun _ =>
          Session.consult (backend.store.create (request session.context.logMessage))).run
            session) := by
    rw [Session.askCreate, Effect.Reads.look.run_bind]
    rfl
  cases message with
  | none => exact (asks session).trans (courseOf_ask rfl session)
  | some text =>
      have inside := (asks (session.holding (some text))).trans (courseOf_ask rfl _)
      obtain ⟨asked, printed, result, world, -⟩ := Course.mk.inj inside
      rw [Session.run_withLogMessage_some, courseOf]
      simp only [Session.askedOf_append, Session.printedOf_append, asked, printed, result, world]
      rfl

/-- To make a shelf is one attempt to create it, with whichever targets are left. -/
theorem attempts_createShelf (backend : Backend σ) (root : Text) (options : Options)
    (name : Text) (rest : List Argument) :
    Attempts backend options (fun call => ∃ request : CreateRequest, call = .create request)
      (createShelf backend root options name rest) := by
  refine .bind (.ofReads (.ofChecked _)) fun selection => ?_
  refine .bind (.forEach _ unheard_warnSkipped) fun _ => ?_
  split
  · exact fun _ => .refused _
  · refine .bind (.ofReads (.ofChecked _)) fun _ => .bind (.ofReads (.ofChecked _)) fun _ => ?_
    refine .bind (.log _ _ _) fun _ => fun session => ?_
    refine attempt_confirm ⟨_, rfl⟩ ?_ ?_ (courseOf_askCreate _ _ _ _)
    · exact rfl
    · exact ⟨rfl, rfl⟩

/-- Once the name is known, to unshelve is one attempt to apply it. -/
theorem attempts_applyResolved (backend : Backend σ) (root : Text) (options : Options)
    (resolved : Resolved) :
    Attempts backend options
      (· = .apply resolved.name root options.keepLocal options.dryRun)
      (applyResolved backend root options resolved) := by
  refine .bind (.ofReads (.ofChecked _)) fun _ => ?_
  have applies : Attempts backend options
      (· = .apply resolved.name root options.keepLocal options.dryRun)
      (trace ("Unshelving " ++ resolved.name.quoted ++ " (" ++ dryRunText options) >>= fun _ =>
        Session.askApply backend resolved.name root options.keepLocal options.dryRun >>= fun _ =>
          confirm options "unshelved" resolved.name) := by
    refine .bind (.log _ _ _) fun _ => fun session => ?_
    exact attempt_confirm rfl rfl rfl (courseOf_ask rfl session)
  split
  · exact .bind .silence fun _ => applies
  · exact applies

/-! ### Listings -/

/-- What is printed of a shelf behind its entry. -/
def printStatistics (backend : Backend σ) (patchPath : Text) : Operation σ Unit := do
  let summary ← Session.askSummary backend patchPath
  printSummary summary
  Session.print []

/-- The statistics of a patch are printed as its summary has them, and leave the contents of the
store. -/
theorem besides_printStatistics (backend : Backend σ) (patchPath : Text) :
    Besides (SummaryLine backend patchPath) (SameContents backend)
      (printStatistics backend patchPath) := by
  have asks : Besides (SummaryLine backend patchPath) (SameContents backend)
      (Session.askSummary backend patchPath) :=
    .bind .trans (.emit .refl rfl nofun) fun _ _ =>
      .consult fun world _ _ keeps => keeps.summarize _ world
  refine .bind .trans asks fun summary ⟨session, given⟩ => ?_
  refine .bind .trans ?_ fun _ _ => .print .refl .empty
  rw [printSummary]
  split
  · exact .ofReads .refl (.pure ())
  · exact .print .refl (.said session.world summary given)

/-- One entry is printed as lines of a listing. -/
theorem besides_printEntry (backend : Backend σ) (now : Instant) (statistics : Bool)
    (entry : Text × ShelfRecord) :
    Besides (ListingLine backend) (SameContents backend)
      (printEntry backend now statistics entry) := by
  refine .bind .trans (.print .refl (.entry _ _ _)) fun _ _ => ?_
  split
  · exact (besides_printStatistics backend entry.2.patchPath).weaken fun _ => .summary _
  · exact .ofReads .refl (.pure ())

/-- The session behind a list of records. -/
def afterList (backend : Backend σ) (root : Text) (session : Session σ) : Session σ :=
  ⟨session.context, ((backend.store.list root).run session.world).world⟩

/-- To list a store leaves its contents. -/
theorem sameContents_list (backend : Backend σ) (root : Text) (world : σ) :
    SameContents backend world ((backend.store.list root).run world).world :=
  fun _ _ keeps => keeps.list root world

/-- To have the records in their order, the store is asked once for its list. -/
theorem conducts_inOrder_bind {root : Text} {next : List (Text × ShelfRecord) → Operation σ Unit}
    (goes : ∀ records session,
      ((backend.store.list root).run session.world).result = .ok records →
        Conduct backend options session.world session.context.logMessage
          ((courseOf ((next records.inOrder).run (afterList backend root session))).behind
            [.list root] [])) :
    Conducts backend options (inOrder backend root >>= next) := by
  intro session
  have asked : (Session.askList backend root).run session =
      ⟨((backend.store.list root).run session.world).result, afterList backend root session,
        [.asked (.list root)] ++
          ((backend.store.list root).run session.world).events.filterMap session.context.admit?⟩ :=
    rfl
  rw [inOrder, Effect.bind_assoc]
  cases ended : ((backend.store.list root).run session.world).result with
  | error reason =>
      rw [ended] at asked
      rw [Effect.run_bind_error asked]
      simp only [courseOf, Session.askedOf_append, Session.printedOf_append,
        Session.askedOf_admitted, Session.printedOf_admitted]
      refine .listed root [] (.error reason) _ (fun _ stopped => ?_) (List.forall_mem_nil _)
        (sameContents_list backend root session.world)
      obtain rfl := Except.error.inj (ended.symm.trans stopped)
      rfl
  | ok records =>
      have conduct := goes records session ended
      rw [ended] at asked
      rw [Session.courseOf_bind_ok (congrArg Outcome.result asked), asked]
      simp only [Session.askedOf_append, Session.printedOf_append, Session.askedOf_admitted,
        Session.printedOf_admitted]
      exact conduct

/-- A listing asks for the shelves once and changes none. -/
theorem conducts_listShelves (backend : Backend σ) (options : Options) (root : Text)
    (now : Instant) (statistics : Bool) :
    Conducts backend options (listShelves backend root now statistics) := by
  refine conducts_inOrder_bind fun records session listed => ?_
  obtain ⟨asked, allowed, kept, goes⟩ := Besides.forEach .refl .trans records.inOrder
    (besides_printEntry backend now statistics) (afterList backend root session)
  have same := (sameContents_list backend root session.world).trans _ _ _ goes
  simp only [courseOf, Course.behind, asked, kept, List.append_nil, List.nil_append]
  exact .listed root _ _ _ (fun _ stopped => nomatch listed.symm.trans stopped) allowed same

/-! ### Commands -/

/-- The command `shelve` lists, deletes or creates. -/
theorem conducts_shelve (backend : Backend σ) (surroundings : Surroundings)
    (arguments : List Argument) (options : Options) :
    Conducts backend options (shelve backend surroundings arguments options) := by
  have goes : Conducts backend options
      (Effect.ofAccess surroundings.root >>= fun root =>
        if options.listOnly then
          Effect.ofChecked (Arguments.requireNone arguments) >>= fun _ =>
            listShelves backend root surroundings.now !options.quiet
        else
          Effect.ofChecked (Arguments.takeName arguments) >>= fun taken =>
            if options.remove then removeShelf backend root options taken.1 taken.2
            else createShelf backend root options taken.1 taken.2) := by
    refine .bind (.ofReads (.ofAccess _)) fun root => ?_
    split
    · exact .bind (.ofReads (.ofChecked _)) fun _ => conducts_listShelves _ _ _ _ _
    · refine .bind (.ofReads (.ofChecked _)) fun taken => ?_
      split
      · exact (attempts_removeShelf _ _ _ _ _).conducts
      · exact (attempts_createShelf _ _ _ _ _).conducts
  rw [shelve]
  split
  · exact .bind .silence fun _ => goes
  · exact goes

/-- Without a name, the youngest shelf is applied that the store lists. -/
theorem conducts_unshelve_youngest (backend : Backend σ) (options : Options) (root : Text) :
    Conducts backend options
      (resolve backend [] root >>= fun resolved =>
        if resolved.automatic then
          Session.print ("unshelving the youngest change, '" ++ resolved.name ++ "'") >>=
            fun _ => applyResolved backend root options resolved
        else applyResolved backend root options resolved) := by
  simp only [resolve, youngest, List.isEmpty_nil, if_true, Effect.bind_assoc]
  refine conducts_inOrder_bind fun records session listed => ?_
  cases last : Shelves.lastName? records.inOrder with
  | none =>
      refine .listed root [] (.error (.failure (.plain .noShelves))) _ (fun _ stopped => ?_)
        (List.forall_mem_nil _) (sameContents_list backend root session.world)
      cases listed.symm.trans stopped
  | some name =>
      have applies := attempts_applyResolved backend root options ⟨name, [], true⟩
        (afterList backend root session)
      have picked := Conduct.picked root name records listed applies
      simp only [Effect.pure_bind, if_true]
      rw [Session.courseOf_bind_ok rfl, Session.courseOf_bind_ok rfl]
      exact picked

/-- The command `unshelve` lists, or applies one shelf, by its name or after it picked the youngest.
-/
theorem conducts_unshelve (backend : Backend σ) (surroundings : Surroundings)
    (arguments : List Argument) (options : Options) :
    Conducts backend options (unshelve backend surroundings arguments options) := by
  by_cases lists : options.listOnly = true
  · rw [unshelve]
    refine .bind (.ofReads (.ofAccess _)) fun root => ?_
    simp only [lists, if_true]
    exact .bind (.ofReads (.ofChecked _)) fun _ => conducts_listShelves _ _ _ _ _
  · rw [unshelve_of_applies (by simpa using lists)]
    refine .bind (.ofReads (.ofAccess _)) fun root => ?_
    cases arguments with
    | nil => exact conducts_unshelve_youngest backend options root
    | cons first rest =>
        have named : resolve backend (first :: rest) root =
            Effect.ofChecked (Arguments.takeName (first :: rest)) >>= fun taken =>
              pure ⟨taken.1, taken.2, false⟩ := rfl
        rw [named, Effect.bind_assoc]
        refine .bind (.ofReads (.ofChecked _)) fun taken => ?_
        exact (attempts_applyResolved _ _ _ _).conducts

/-- The command `shelves` only lists. -/
theorem conducts_shelves (backend : Backend σ) (surroundings : Surroundings)
    (arguments : List Argument) (options : Options) :
    Conducts backend options (shelves backend surroundings arguments options) := by
  refine .bind (.ofReads (.ofChecked _)) fun _ => .bind (.ofReads (.ofAccess _)) fun root => ?_
  exact conducts_listShelves _ _ _ _ _

/-- Each of the commands goes in one of these ways. -/
theorem conducts_run (command : Command) (backend : Backend σ) (surroundings : Surroundings)
    (arguments : List Argument) (options : Options) :
    Conducts backend options (command.run backend surroundings arguments options) := by
  cases command with
  | shelve => exact conducts_shelve backend surroundings arguments options
  | unshelve => exact conducts_unshelve backend surroundings arguments options
  | shelves => exact conducts_shelves backend surroundings arguments options

end Commands

end PatchShelf
