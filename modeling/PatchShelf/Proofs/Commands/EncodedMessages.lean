/-
Module: PatchShelf.Proofs.Commands.EncodedMessages
Purpose: No command has the store make a shelf that it cannot encode.
Main exports:
  Commands.asks_checked, Commands.SendsEncodable, Commands.Forestalls, Commands.MakesShelf,
  Commands.forestalls_unsaid, Commands.shelves_always_encodable
-/
import PatchShelf.Proofs.Commands.LogMessages
import PatchShelf.Proofs.Commands.FoundAgain
import PatchShelf.Proofs.Commands.ReservedTargets
import PatchShelf.Proofs.Store.Encodable

/-!
A store that makes a shelf encodes the patch and the log message, and says so if it cannot.  It
never comes to that behind a command.  A command that asks for a shelf has checked its message
before, and since no message lasts from one command to the next, it is this message that the
store gets.  A message that fails the check ends the command where it would have asked the
store; the patch is made of what the client has printed, and any such text can be encoded.
-/

namespace PatchShelf

namespace Commands

open Session (Asks Operation Unheard askedOf)
open CommandLine (backendOf)
open WorkingCopyStore (ClientSays IsOther encodeMessage)

variable {σ : Type} {backend : Backend σ} {surroundings : Surroundings} {options : Options}

theorem checkMessage_eq_ok_iff (message : Option Text) :
    checkMessage message = .ok () ↔ ∀ text, message = some text → text.hasRaw = false := by
  cases message with
  | none => exact iff_of_true rfl nofun
  | some text =>
      rw [checkMessage, Arguments.toUtf8]
      cases stray : text.hasRaw with
      | true => simp [Except.map, stray]
      | false => simp [Except.map, stray]

/-! ### What the store gets -/

/-- If the call is for a new shelf, the message of the options has passed its check. -/
def Checked (options : Options) : StoreCall → Prop
  | .create _ => checkMessage options.message = .ok ()
  | .list _ | .delete .. | .apply .. => True

theorem asks_shelve_checked (backend : Backend σ) (surroundings : Surroundings)
    (arguments : List Argument) (options : Options) :
    Asks (Checked options) (shelve backend surroundings arguments options) := by
  refine Asks.bind_if (Session.asks_of_silent (.change _)) fun _ => ?_
  refine Asks.bind_ofAccess fun root _ => ?_
  split
  · exact Asks.bind_ofChecked fun _ _ => asks_listShelves backend root _ _ trivial
  · refine Asks.bind_ofChecked fun named _ => ?_
    simp only
    split
    · exact asks_removeShelf backend root options _ _ trivial
    · exact asks_createShelf backend root options _ _ fun _ _ _ valid => valid

theorem asks_resolve (backend : Backend σ) (arguments : List Argument) {root : Text}
    {allowed : StoreCall → Prop} (lists : allowed (.list root)) :
    Asks allowed (resolve backend arguments root) := by
  rw [resolve]
  split
  · refine Asks.bind ((asks_inOrder backend root lists).bind fun entries => ?_) fun name =>
      (Session.asks_log _ _ _).bind fun _ => Session.asks_pure _
    split
    · exact Session.asks_fail _
    · exact Session.asks_pure _
  · exact Asks.bind_ofChecked fun _ _ => Session.asks_pure _

theorem asks_unshelve_checked (backend : Backend σ) (surroundings : Surroundings)
    (arguments : List Argument) (options : Options) :
    Asks (Checked options) (unshelve backend surroundings arguments options) := by
  refine Asks.bind_ofAccess fun root _ => ?_
  split
  · exact Asks.bind_ofChecked fun _ _ => asks_listShelves backend root _ _ trivial
  · refine (asks_resolve backend arguments trivial).bind fun resolved => ?_
    refine Asks.bind_if (Session.asks_print _) fun _ => ?_
    refine Asks.bind_ofChecked fun _ _ => ?_
    refine Asks.bind_if (Session.asks_of_silent (.change _)) fun _ => ?_
    exact (Session.asks_log _ _ _).bind fun _ => (Asks.askApply trivial).bind fun _ =>
      asks_confirm options _ _

/-- Whatever the errand, a shelf is asked for only with a message that has passed its check. -/
theorem asks_checked (errand : Errand σ) : Asks (Checked errand.options) errand.action := by
  obtain ⟨command, backend, surroundings, arguments, options⟩ := errand
  cases command with
  | shelve => exact asks_shelve_checked backend surroundings arguments options
  | unshelve => exact asks_unshelve_checked backend surroundings arguments options
  | shelves =>
      exact Asks.bind_ofChecked fun _ _ => Asks.bind_ofAccess fun root _ =>
        asks_listShelves backend root _ _ trivial

/-- What a store is asked to make in a run can be encoded: it does not refuse the message, and
on no machine does a store in a working copy say that it cannot encode the shelf, other than in
words of the client. -/
def SendsEncodable (outcome : Outcome Event (Session σ) Unit) : Prop :=
  ∀ request, .asked (.create request) ∈ outcome.events →
    (∃ bytes, encodeMessage request.name request.logMessage = .ok bytes) ∧
      ∀ (settings : WorkingCopyStore) (machine : Machine) (reason : Stop),
        ((settings.create request).run machine).result = .error reason →
          IsOther reason ∨ ClientSays settings machine reason

theorem sendsEncodable_of_none (errand : Errand σ) {session : Session σ}
    (none : session.context.logMessage = none) :
    SendsEncodable (errand.action.run session) := by
  intro request asked
  have valid : checkMessage errand.options.message = .ok () := asks_checked errand session _ asked
  rw [← (discreet_of_none errand none).seen request asked, checkMessage_eq_ok_iff] at valid
  have encoded := WorkingCopyStore.encodeMessage_of_valid request.name valid
  exact ⟨⟨_, encoded⟩, fun settings machine reason stopped =>
    WorkingCopyStore.stops_create_of_encodable encoded settings machine reason stopped⟩

/-- Each errand leaves the context without a message, so the next one can be trusted, too. -/
theorem sendsEncodable_outcomes (errands : List (Errand σ)) {session : Session σ}
    (none : session.context.logMessage = none) :
    ∀ outcome ∈ outcomes errands session, SendsEncodable outcome := by
  induction errands generalizing session with
  | nil => nofun
  | cons errand rest ih =>
      intro outcome member
      rcases List.mem_cons.1 member with rfl | later
      · exact sendsEncodable_of_none errand none
      · exact ih (discreet_of_none errand none).released outcome later

/-! ### A message that fails its check -/

/-- One run is refused without a call of the store, where another one may make it: they are the
same if that one is refused as well, and otherwise the reason is the given one. -/
inductive Forestalled (reason : Stop) (early late : Outcome Event (Session σ) Unit) : Prop
  | alike (unasked : askedOf late.events = []) (stops : ∃ other, late.result = .error other)
      (same : early = late)
  | sooner (asks : askedOf late.events ≠ []) (unasked : askedOf early.events = [])
      (refused : early.result = .error reason)

/-- In every session, the one operation is refused where the other one may ask the store. -/
def Forestalls (reason : Stop) (early late : Operation σ Unit) : Prop :=
  ∀ session, Forestalled reason (early.run session) (late.run session)

variable {α : Type} {reason : Stop}

theorem Forestalls.stop (other : Stop) :
    Forestalls reason (Effect.stop other : Operation σ Unit) (Effect.stop other) :=
  fun _ => .alike rfl ⟨other, rfl⟩ rfl

/-- Behind the same beginning, in which the store is asked for nothing, the one operation still
forestalls the other. -/
theorem Forestalls.bind {action : Operation σ α} (unheard : Unheard action)
    {early late : α → Operation σ Unit}
    (forestalls : ∀ result, Forestalls reason (early result) (late result)) :
    Forestalls reason (action >>= early) (action >>= late) := by
  intro session
  have unasked := (unheard session).asked
  rw [Effect.run_bind, Effect.run_bind]
  cases (action.run session).result with
  | error other => exact .alike unasked ⟨other, rfl⟩ rfl
  | ok result =>
      cases forestalls result (action.run session).world with
      | alike later stops same =>
          refine .alike (by simp [unasked, later]) stops ?_
          simp only [same]
      | sooner asks later refused =>
          refine .sooner (by simpa [unasked] using asks) (by simp [unasked, later]) refused

/-- What follows takes no call back. -/
theorem asked_bind_ne_nil {action : Operation σ α} {session : Session σ}
    (asks : askedOf (action.run session).events ≠ []) (next : α → Operation σ Unit) :
    askedOf ((action >>= next).run session).events ≠ [] := by
  rw [Effect.run_bind]
  cases (action.run session).result with
  | error other => exact asks
  | ok result => simp [asks]

/-- To check a message that fails forestalls what asks the store for a shelf. -/
theorem forestalls_checkMessage {message : Text} (stray : message.hasRaw = true)
    (backend : Backend σ) (request : Option Text → CreateRequest) (note : Text)
    (early last : Unit → Operation σ Unit) :
    Forestalls (.failure (.plain .encoding))
      (Effect.ofChecked (checkMessage (some message)) >>= early)
      (Effect.ofChecked (checkMessage none) >>= fun _ => trace note >>= fun _ =>
        Session.withLogMessage none (Session.askCreate backend request) >>= last) := by
  intro session
  have refused : checkMessage (some message) = .error (.plain .encoding) := by
    rw [checkMessage, Arguments.toUtf8, if_pos stray]
    rfl
  rw [refused]
  refine .sooner ?_ rfl rfl
  have made := congrArg Session.Course.asked (courseOf_askCreate backend request none session)
  have asks : askedOf ((Session.withLogMessage none (Session.askCreate backend request)).run
      session).events ≠ [] := by
    intro none
    cases made.symm.trans none
  exact asked_bind_ne_nil asks last

theorem forestalls_createShelf {message : Text} (stray : message.hasRaw = true)
    (given : options.message = some message) (backend : Backend σ) (root name : Text)
    (rest : List Argument) :
    Forestalls (.failure (.plain .encoding)) (createShelf backend root options name rest)
      (createShelf backend root { options with message := none } name rest) := by
  refine .bind (.ofReads (.ofChecked _)) fun selection => ?_
  refine .bind (.forEach _ unheard_warnSkipped) fun _ => ?_
  simp only
  split
  · exact .stop _
  · refine .bind (.ofReads (.ofChecked _)) fun _ => ?_
    rw [given]
    exact forestalls_checkMessage stray backend _ _ _ _

/-- The errand is to make a shelf. -/
structure MakesShelf (errand : Errand σ) : Prop where
  shelves : errand.command = .shelve
  lists : errand.options.listOnly = false
  removes : errand.options.remove = false

/-- The errand without its message. -/
def Errand.unsaid (errand : Errand σ) : Errand σ :=
  { errand with options := { errand.options with message := none } }

theorem forestalls_unsaid {errand : Errand σ} (makes : MakesShelf errand) {message : Text}
    (given : errand.options.message = some message) (stray : message.hasRaw = true) :
    Forestalls (.failure (.plain .encoding)) errand.action errand.unsaid.action := by
  obtain ⟨command, backend, surroundings, arguments, options⟩ := errand
  obtain ⟨shelves, lists, removes⟩ := makes
  simp only at shelves lists removes given
  subst shelves
  have goes : Forestalls (.failure (.plain .encoding))
      (Effect.ofAccess surroundings.root >>= fun root =>
        Effect.ofChecked (Arguments.takeName arguments) >>= fun taken =>
          createShelf backend root options taken.1 taken.2)
      (Effect.ofAccess surroundings.root >>= fun root =>
        Effect.ofChecked (Arguments.takeName arguments) >>= fun taken =>
          createShelf backend root { options with message := none } taken.1 taken.2) :=
    .bind (.ofReads (.ofAccess _)) fun root => .bind (.ofReads (.ofChecked _)) fun taken =>
      forestalls_createShelf stray given backend root taken.1 taken.2
  simp only [Errand.action, Errand.unsaid, Command.run, shelve, lists, removes, Bool.false_eq_true,
    if_false]
  split
  · exact .bind .silence fun _ => goes
  · exact goes

/-! ### Every shelf can be encoded -/

/-- No command has the store say that it cannot encode a shelf.  Of any errands one after
another, in a context that begins without a message, none asks for a shelf that a store could
not encode, whatever the client prints.  An errand whose message is not valid asks for no shelf
at all: if it is to make one, it is refused before it asks the store for anything, and its
message is the reason wherever it would ask without one.  And whatever the client prints, each
code point of the patch can be encoded; only line ends are made uniform by that. -/
theorem shelves_always_encodable :
    (∀ (errands : List (Errand σ)) (notify : Bool) (world : σ),
      ∀ outcome ∈ outcomes errands ⟨⟨notify, none⟩, world⟩, SendsEncodable outcome) ∧
    (∀ (errand : Errand σ) (message : Text) (session : Session σ),
      errand.options.message = some message → message.hasRaw = true →
        (∀ request, .asked (.create request) ∉ (errand.action.run session).events) ∧
          (MakesShelf errand → Forestalled (.failure (.plain .encoding))
            (errand.action.run session) (errand.unsaid.action.run session))) ∧
    ∀ output : Bytes, Utf8.encodeCodes? (WorkingCopyStore.outputText output).codes =
      some (Bytes.uniformLines output) := by
  refine ⟨fun errands notify world => sendsEncodable_outcomes errands rfl, ?_, fun output => ?_⟩
  · intro errand message session given stray
    refine ⟨fun request asked => ?_, fun makes => forestalls_unsaid makes given stray session⟩
    have valid := asks_checked errand session _ asked
    have clean := (checkMessage_eq_ok_iff _).1 valid message given
    exact Bool.false_ne_true (clean.symm.trans stray)
  · exact (Utf8.encodeCodes?_eq_some_iff _ _).2
      ⟨_, rfl, WorkingCopyStore.encode_outputText output⟩

/-- The working directory is to be shelved with this log message. -/
def shelvingWith (message : Text) : Errand Machine :=
  ⟨.shelve, backendOf usualSettings, surroundingsOn openMachine, [.text "n", .text "."],
    { message := some message }⟩

theorem shelves_always_encodable_stray :
    ∃ stray valid, outcomes [shelvingWith [.raw 0], shelvingWith "why"] (sessionOn openMachine) =
        [stray, valid] ∧
      stray.result = .error (.failure (.plain .encoding)) ∧ askedOf stray.events = [] ∧
      .asked (.create (WorkingCopyStore.plainRequest (some "why"))) ∈ valid.events ∧
      ∃ bytes, encodeMessage "n" (some "why") = .ok bytes := by
  obtain ⟨sends, refuses, -⟩ := @shelves_always_encodable Machine
  obtain ⟨-, forestalled⟩ :=
    refuses (shelvingWith [.raw 0]) [.raw 0] (sessionOn openMachine) rfl rfl
  have asks : askedOf ((shelvingWith [.raw 0]).unsaid.action.run
      (sessionOn openMachine)).events ≠ [] := by decide +kernel
  have asked : .asked (.create (WorkingCopyStore.plainRequest (some "why"))) ∈
      ((shelvingWith "why").action.run ((shelvingWith [.raw 0]).action.run
        (sessionOn openMachine)).world).events := by decide +kernel
  obtain ⟨encoded, -⟩ := sends [shelvingWith [.raw 0], shelvingWith "why"] true openMachine _
    (List.mem_cons_of_mem _ List.mem_cons_self) _ asked
  cases forestalled ⟨rfl, rfl, rfl⟩ with
  | alike unasked => exact absurd unasked asks
  | sooner _ unasked refused => exact ⟨_, _, rfl, refused, unasked, asked, encoded⟩

end Commands

end PatchShelf
