/-
Module: PatchShelf.Proofs.Commands.CallDiscipline
Purpose: The order that commands keep in dealing with a store.
Main exports:
  Commands.CallShape, Commands.Disciplined, Commands.disciplined_run,
  Commands.disciplined_backendOf
-/
import PatchShelf.Proofs.Commands.Conduct
import PatchShelf.Proofs.Store.Wording

/-!
A command asks for at most one change, and asks for it last.  What is wrong with its arguments
it says before that, so whoever sees it refuse can rely on the shelves being what they were.
-/

namespace PatchShelf

namespace Commands

open Session (Course courseOf)

variable {σ : Type} {backend : Backend σ} {options : Options}

/-- The calls of a command: none, one of any kind, or a list and the shelf that it is to apply
from there. -/
inductive CallShape : List StoreCall → Prop
  | none : CallShape []
  | one (call : StoreCall) : CallShape [call]
  | youngest (root name : Text) (keepLocal dryRun : Bool) :
      CallShape [.list root, .apply name root keepLocal dryRun]

/-- The failures by which a command refuses what it was given. -/
def refusals : List FailureKind :=
  [.argumentShape, .encoding, .badTarget, .noShelves]

/-- What can be relied on in a run, from a world of the store and a log message: which calls it
makes, that nothing follows a call that fails, that a refusal comes before any change, and that
exactly what was done is confirmed. -/
structure Disciplined (backend : Backend σ) (options : Options) (world : σ)
    (message : Option Text) (course : Course σ) : Prop where
  shape : CallShape course.asked
  stops : ∀ before call after reason, course.asked = before ++ call :: after →
    backend.store.answer before call world = .error reason →
      after = [] ∧ course.result = .error reason
  reached : (∃ call ∈ course.asked, call.confirmation? ≠ none) →
    course.world = backend.store.worldAfter course.asked world
  refused : ∀ failure, course.result = .error (.failure failure) → failure.kind ∈ refusals →
    (∀ call ∈ course.asked, call.confirmation? = none) ∧ course.logMessage = message ∧
      SameContents backend world course.world
  confirmed : ∀ before call after line, course.asked = before ++ call :: after →
    call.confirmation? = some line →
      (line ∈ course.printed ↔
        (∃ answer, backend.store.answer before call world = .ok answer) ∧ options.quiet = false)
  unconfirmed : (∀ call ∈ course.asked, call.confirmation? = none) →
    ∀ line ∈ course.printed, ListingLine backend line ∨ ∃ name, line = pickedLine name

theorem eq_of_singleton {before after : List StoreCall} {only call : StoreCall}
    (parts : [only] = before ++ call :: after) : before = [] ∧ call = only ∧ after = [] := by
  cases before with
  | nil =>
      obtain ⟨rfl, rfl⟩ := List.cons.inj parts
      exact ⟨rfl, rfl, rfl⟩
  | cons first rest => simp at parts

theorem error_of_map_error {α β : Type} {step : α → β} {result : Except Stop α} {reason : Stop}
    (stopped : result.map step = .error reason) : result = .error reason := by
  cases result with
  | error other => exact congrArg Except.error (Except.error.inj stopped)
  | ok value => cases stopped

theorem mem_told_iff {α : Type} (options : Options) (line : Text) (result : Except Stop α) :
    line ∈ told options line result ↔ (∃ answer, result = .ok answer) ∧ options.quiet = false := by
  cases result with
  | error reason => simp [told]
  | ok answer => cases loud : options.quiet <;> simp [told, loud]

/-- An attempt that was refused has come to nothing. -/
theorem disciplined_refused (backend : Backend σ) (options : Options) (reason : Stop) (world : σ)
    (message : Option Text) :
    Disciplined backend options world message ⟨[], [], .error reason, world, message⟩ := by
  have none (before after : List StoreCall) (call : StoreCall) :
      [] ≠ before ++ call :: after := by simp
  exact
    { shape := .none
      stops := fun _ _ _ _ parts => absurd parts (none _ _ _)
      reached := nofun
      refused := fun _ _ _ => ⟨nofun, rfl, .refl world⟩
      confirmed := fun _ _ _ _ parts => absurd parts (none _ _ _)
      unconfirmed := nofun }

/-- The answer to the one call is the end of the attempt; a store that fails in its own way
refuses nothing. -/
theorem disciplined_made (fails : backend.store.FailsAsStore) {call : StoreCall} {line : Text}
    {world : σ} {message after : Option Text} {outcome : Outcome Activity σ (Option Shelves)}
    (confirms : call.confirmation? = some line)
    (answered : (backend.store.perform call).run world = outcome) :
    Disciplined backend options world message
      ⟨[call], told options line outcome.result, outcome.result.map fun _ => (), outcome.world,
        after⟩ where
  shape := .one call
  stops := by
    intro before other after reason parts failed
    obtain ⟨rfl, rfl, rfl⟩ := eq_of_singleton parts
    have failed : outcome.result = .error reason := answered ▸ failed
    exact ⟨rfl, congrArg (Except.map fun _ => ()) failed⟩
  reached := fun _ => answered ▸ rfl
  refused := by
    intro failure stopped kind
    have failed : ((backend.store.perform call).run world).result = .error (.failure failure) :=
      answered ▸ error_of_map_error stopped
    rw [fails call world failure failed] at kind
    exact absurd kind (by decide)
  confirmed := by
    intro before other after text parts said
    obtain ⟨rfl, rfl, rfl⟩ := eq_of_singleton parts
    obtain rfl := Option.some.inj (said.symm.trans confirms)
    subst answered
    exact mem_told_iff options text _
  unconfirmed := by
    intro listing
    have unsaid := listing call (List.mem_singleton_self call)
    cases unsaid.symm.trans confirms

theorem Attempt.disciplined (fails : backend.store.FailsAsStore) {allowed : StoreCall → Prop}
    {world : σ} {message : Option Text} {course : Course σ}
    (attempt : Attempt backend options allowed world message course) :
    Disciplined backend options world message course := by
  cases attempt with
  | refused reason => exact disciplined_refused backend options reason world message
  | made call line after holds confirms sees answered =>
      exact disciplined_made fails confirms answered

/-- A listing makes no call that changes shelves. -/
theorem disciplined_listed {root : Text} {lines : List Text} {result : Except Stop Unit}
    {world after : σ} {message : Option Text}
    (stops : ∀ reason, ((backend.store.list root).run world).result = .error reason →
      result = .error reason)
    (plain : ∀ line ∈ lines, ListingLine backend line)
    (same : SameContents backend world after) :
    Disciplined backend options world message ⟨[.list root], lines, result, after, message⟩ where
  shape := .one _
  stops := by
    intro before call after reason parts failed
    obtain ⟨rfl, rfl, rfl⟩ := eq_of_singleton parts
    rw [ShelfStore.answer_list] at failed
    exact ⟨rfl, stops reason (error_of_map_error failed)⟩
  reached := by
    rintro ⟨call, asked, changes⟩
    obtain rfl := List.mem_singleton.1 asked
    exact absurd rfl changes
  refused := by
    intro failure stopped kind
    refine ⟨fun call asked => ?_, rfl, same⟩
    obtain rfl := List.mem_singleton.1 asked
    rfl
  confirmed := by
    intro before call after line parts said
    obtain ⟨rfl, rfl, rfl⟩ := eq_of_singleton parts
    cases said
  unconfirmed := fun _ line printed => .inl (plain line printed)

/-- The lines differ where `unshelved` ends. -/
theorem pickedLine_ne_confirmation (name other : Text) :
    pickedLine name ≠ "unshelved" ++ " '" ++ other ++ "'" := by
  intro same
  have picks : (pickedLine name)[7]? = some (.char 'i') := rfl
  have confirms : ("unshelved" ++ " '" ++ other ++ "'" : Text)[7]? = some (.char 'e') := rfl
  rw [same, confirms] at picks
  cases picks

/-- Behind a list of records, an attempt to apply a shelf is as disciplined as alone. -/
theorem disciplined_behind_list {root name : Text} {keepLocal dryRun : Bool} {records : Shelves}
    {world : σ} {message : Option Text} {course : Course σ}
    (listed : ((backend.store.list root).run world).result = .ok records)
    (later : Disciplined backend options ((backend.store.list root).run world).world message
      course)
    (applies : ∀ call ∈ course.asked, call = .apply name root keepLocal dryRun) :
    Disciplined backend options world message (course.behind [.list root] [pickedLine name]) where
  shape := by
    obtain ⟨asked, printed, result, after, left⟩ := course
    cases later.shape with
    | none => exact .one _
    | one call =>
        obtain rfl := applies call (List.mem_singleton_self call)
        exact .youngest root name keepLocal dryRun
    | youngest root name keepLocal dryRun => cases applies _ List.mem_cons_self
  stops := by
    intro before call after reason parts failed
    -- The list itself went well, so what failed is a call behind it.
    cases before with
    | nil =>
        obtain ⟨rfl, -⟩ := List.cons.inj parts
        rw [ShelfStore.answer_list, listed] at failed
        cases failed
    | cons first rest =>
        obtain ⟨rfl, behind⟩ := List.cons.inj parts
        rw [ShelfStore.answer_list_cons] at failed
        exact later.stops rest call after reason behind failed
  reached := by
    rintro ⟨call, asked, changes⟩
    rcases List.mem_cons.1 asked with rfl | asked
    · exact absurd rfl changes
    · have reached := later.reached ⟨call, asked, changes⟩
      rw [← ShelfStore.worldAfter_list_cons] at reached
      exact reached
  refused := by
    intro failure stopped kind
    obtain ⟨unchanged, kept, same⟩ := later.refused failure stopped kind
    refine ⟨fun call asked => ?_, kept, (sameContents_list backend root world).trans _ _ _ same⟩
    rcases List.mem_cons.1 asked with rfl | asked
    · rfl
    · exact unchanged call asked
  confirmed := by
    intro before call after line parts said
    cases before with
    | nil =>
        obtain ⟨rfl, -⟩ := List.cons.inj parts
        cases said
    | cons first rest =>
        obtain ⟨rfl, behind⟩ := List.cons.inj parts
        have asked : call ∈ course.asked := by
          have behind : course.asked = rest ++ call :: after := behind
          simp [behind]
        have other : line ≠ pickedLine name := by
          rw [applies call asked] at said
          obtain rfl := Option.some.inj said
          exact (pickedLine_ne_confirmation name name).symm
        have printed : line ∈ (course.behind [.list root] [pickedLine name]).printed ↔
            line ∈ course.printed := by
          simp [Course.behind, other]
        rw [printed, ShelfStore.answer_list_cons]
        exact later.confirmed rest call after line behind said
  unconfirmed := by
    intro unchanged line printed
    rcases List.mem_cons.1 printed with rfl | printed
    · exact .inr ⟨name, rfl⟩
    · refine later.unconfirmed (fun call asked => ?_) line printed
      exact unchanged call (List.mem_cons_of_mem _ asked)

theorem Conduct.disciplined (fails : backend.store.FailsAsStore) {world : σ}
    {message : Option Text} {course : Course σ}
    (conduct : Conduct backend options world message course) :
    Disciplined backend options world message course := by
  cases conduct with
  | attempted attempt => exact attempt.disciplined fails
  | listed root lines result after stops plain same => exact disciplined_listed stops plain same
  | picked root name records listed attempt =>
      exact disciplined_behind_list listed (attempt.disciplined fails) attempt.holds

/-- Whatever a command is given, its dealings with a store that fails in its own way only keep
the order of `Disciplined`. -/
theorem disciplined_run (backend : Backend σ) (fails : backend.store.FailsAsStore)
    (command : Command) (surroundings : Surroundings) (arguments : List Argument)
    (options : Options) (session : Session σ) :
    Disciplined backend options session.world session.context.logMessage
      (courseOf ((command.run backend surroundings arguments options).run session)) :=
  (conducts_run command backend surroundings arguments options session).disciplined fails

/-- The store in a working copy fails in its own way only, so this holds of the program as it is
put together. -/
theorem disciplined_backendOf (settings : Settings) (command : Command)
    (surroundings : Surroundings) (arguments : List Argument) (options : Options)
    (session : Session Machine) :
    let backend := CommandLine.backendOf settings
    Disciplined backend options session.world session.context.logMessage
      (courseOf ((command.run backend surroundings arguments options).run session)) := by
  intro backend
  have fails : backend.store.FailsAsStore := WorkingCopyStore.failsAsStore _
  exact (conducts_run command backend surroundings arguments options session).disciplined fails

/-- A store in memory with one shelf. -/
def loneShelf : Session MemoryStore :=
  ⟨⟨true, none⟩,
    ⟨Dictionary.empty.insert "fix.patch"
      ⟨"fix", "/wc/.svn/shelves/fix.patch", .epoch, 100, [], rfl⟩, none, .epoch⟩⟩

/-- The youngest shelf of a store in memory is applied and confirmed, in two calls. -/
theorem disciplined_loneShelf :
    let backend := memoryBackend []
    let course := courseOf ((Command.unshelve.run backend ⟨some "/wc", .epoch⟩ [] {}).run loneShelf)
    backend.store.FailsAsStore ∧
      Disciplined backend {} loneShelf.world loneShelf.context.logMessage course ∧
      course.asked = [.list "/wc", .apply "fix" "/wc" false false] ∧
      course.printed = ["unshelving the youngest change, 'fix'", "unshelved 'fix'"] :=
  ⟨MemoryStore.failsAsStore, disciplined_run _ MemoryStore.failsAsStore .unshelve _ _ _ _,
    by decide +kernel, by decide +kernel⟩

end Commands

end PatchShelf
