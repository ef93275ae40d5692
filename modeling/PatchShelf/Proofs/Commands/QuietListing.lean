/-
Module: PatchShelf.Proofs.Commands.QuietListing
Purpose: Listings with and without the summaries of the patches.
Main exports:
  Commands.ListsOnly, Commands.listing, Commands.listing_cases, Commands.EndsBeside,
  Commands.endsBeside_listing, Commands.leavesFiles_listing, Commands.world_memoryListing
-/
import PatchShelf.CommandLine.Run
import PatchShelf.Proofs.Commands.PrintedShelves
import PatchShelf.Proofs.SideBySide
import PatchShelf.Proofs.Store.DryRun
import PatchShelf.Proofs.Store.ListedRecords
import PatchShelf.Store.Memory

/-!
A listing asks the store once, for its records, and prints them in their order.  A summary
only follows a record that is printed, so it cannot change what was asked; it can stop the
listing if it cannot be had at all.
-/

namespace PatchShelf

namespace Commands

open Session (Alike Concur Operation Says Shows askedOf)

variable {σ : Type} {backend : Backend σ} {surroundings : Surroundings}
  {arguments : List Argument}

/-! ### The records in their order -/

/-- To list its shelves, the store changes nothing and reports no progress. -/
structure ListsOnly (backend : Backend σ) : Prop where
  world : ∀ root world, ((backend.store.list root).run world).world = world
  unnotified : ∀ root world,
    Activity.notices ((backend.store.list root).run world).events = []

/-- The order of the entries does not depend on the report of progress. -/
theorem concur_inOrder (backend : Backend σ) (root : Text) :
    Concur (inOrder backend root) (inOrder backend root) :=
  .bind (.askList _ _) fun _ => .bind (.log _ _ _) fun _ => .pure _

/-- To put them in order says nothing, where listing the store only looks. -/
theorem says_inOrder (lists : ListsOnly backend) (root : Text) (session : Session σ) :
    Says (Shows fun _ => False) (inOrder backend root) session := by
  have consulted : Says (Shows fun _ => False) (Session.consult (backend.store.list root))
      session := by
    intro event member
    obtain ⟨activity, done, admitted⟩ := List.mem_filterMap.1 member
    cases activity with
    | notified shown =>
        have none := lists.unnotified root session.world
        exact nomatch List.filterMap_eq_nil_iff.1 none _ done
    | logged record =>
        obtain rfl := Option.some.inj admitted
        trivial
    | ran call =>
        obtain rfl := Option.some.inj admitted
        trivial
  refine .bind (.bind (.emit trivial) fun _ _ => consulted) fun records _ => ?_
  exact .bind (.emit trivial) fun _ _ => .ofReads (.pure _)

/-- The entries are the records of a listing in their order. -/
theorem exists_of_inOrder_ok {root : Text} {session : Session σ}
    {entries : List (Text × ShelfRecord)}
    (listed : ((inOrder backend root).run session).result = .ok entries) :
    ∃ records, ((backend.store.list root).run session.world).result = .ok records ∧
      entries = records.inOrder := by
  obtain ⟨records, asked, logs, -⟩ := Effect.exists_of_run_bind_ok listed
  exact ⟨records, asked, (Except.ok.inj logs).symm⟩

/-! ### Listings -/

/-- What a command goes through that is to list: the records in their order, unless something
is wrong with its arguments. -/
def entriesOf (backend : Backend σ) (surroundings : Surroundings) (arguments : List Argument) :
    Operation σ (List (Text × ShelfRecord)) := do
  let root ← Effect.ofAccess surroundings.root
  Effect.ofChecked (Arguments.requireNone arguments)
  inOrder backend root

/-- A listing of these records. -/
def listing (backend : Backend σ) (surroundings : Surroundings) (arguments : List Argument)
    (statistics : Bool) : Operation σ Unit :=
  entriesOf backend surroundings arguments >>= fun entries =>
    Effect.forEach entries (printEntry backend surroundings.now statistics)

/-- What a listing lists does not depend on it, either. -/
theorem concur_entriesOf (backend : Backend σ) (surroundings : Surroundings)
    (arguments : List Argument) :
    Concur (entriesOf backend surroundings arguments)
      (entriesOf backend surroundings arguments) :=
  .bind (.ofAccess _) fun _ => .bind (.ofChecked _) fun _ => concur_inOrder _ _

/-- The records of a listing are those of the store. -/
theorem exists_of_entriesOf_ok {session : Session σ} {entries : List (Text × ShelfRecord)}
    (ended : ((entriesOf backend surroundings arguments).run session).result = .ok entries) :
    ∃ root records, surroundings.root = .ok root ∧
      ((backend.store.list root).run session.world).result = .ok records ∧
      entries = records.inOrder := by
  obtain ⟨root, located, ended⟩ := (Effect.Reads.ofAccess _).exists_of_bind_ok ended
  obtain ⟨done, -, ended⟩ := (Effect.Reads.ofChecked _).exists_of_bind_ok ended
  obtain ⟨records, listed, same⟩ := exists_of_inOrder_ok ended
  rw [Effect.run_ofAccess] at located
  exact ⟨root, records, mapError_eq_ok_iff.1 located, listed, same⟩

/-- Finding the entries leaves the store as it is. -/
theorem world_entriesOf (lists : ListsOnly backend) (surroundings : Surroundings)
    (arguments : List Argument) (session : Session σ) :
    ((entriesOf backend surroundings arguments).run session).world.world = session.world := by
  rw [entriesOf, (Effect.Reads.ofAccess _).run_bind]
  cases ((Effect.ofAccess surroundings.root : Operation σ Text).run session).result with
  | error reason => rfl
  | ok root =>
      simp only
      rw [(Effect.Reads.ofChecked _).run_bind]
      cases ((Effect.ofChecked (Arguments.requireNone arguments) : Operation σ Unit).run
          session).result with
      | error reason => rfl
      | ok done =>
          have listed := lists.world root session.world
          simp only
          rw [inOrder, Effect.run_bind]
          cases ((Session.askList backend root).run session).result with
          | error reason => exact listed
          | ok records => exact listed

/-- Finding the entries says nothing, where listing the store only looks. -/
theorem says_entriesOf (lists : ListsOnly backend) (session : Session σ) :
    Says (Shows fun _ => False) (entriesOf backend surroundings arguments) session := by
  refine .bind_reads (.ofAccess _) fun root _ => .bind_reads (.ofChecked _) fun _ _ => ?_
  exact says_inOrder lists root session

/-- Without statistics, a listing prints a line for each record and does nothing else. -/
theorem run_printEntries (entries : List (Text × ShelfRecord)) (now : Instant)
    (session : Session σ) :
    (Effect.forEach entries (printEntry backend now false)).run session =
      ⟨.ok (), session,
        entries.map fun entry => .printed (Listing.entryText entry.1 entry.2 now)⟩ := by
  induction entries with
  | nil => rfl
  | cons first rest ih =>
      show (printEntry backend now false first >>= fun _ => Effect.forEach rest
        (printEntry backend now false)).run session = _
      have here : (printEntry backend now false first).run session =
          ⟨.ok (), session, [.printed (Listing.entryText first.1 first.2 now)]⟩ := rfl
      rw [Effect.run_bind_ok here, ih]
      rfl

/-- In every session, the operation asks the store for nothing and keeps the context. -/
def Aside {α : Type} (action : Operation σ α) : Prop :=
  ∀ session, (action.run session).world.context = session.context ∧
    askedOf (action.run session).events = []

namespace Aside

variable {α β : Type}

theorem ofReads {action : Operation σ α} (reads : Effect.Reads action) : Aside action := by
  intro session
  obtain ⟨same, silent⟩ := reads session
  rw [same, silent]
  exact ⟨rfl, rfl⟩

theorem emit {event : Event} (other : event.asked? = none) :
    Aside (Effect.emit event : Operation σ Unit) :=
  fun _ => ⟨rfl, by simp [askedOf, other]⟩

theorem consult (action : Effect Activity σ α) : Aside (Session.consult action) :=
  fun _ => ⟨rfl, Session.askedOf_admitted _ _⟩

/-- A sequence is aside if its parts are. -/
theorem bind {action : Operation σ α} {next : α → Operation σ β} (first : Aside action)
    (second : ∀ result, Aside (next result)) : Aside (action >>= next) := by
  intro session
  refine Effect.run_bind_induction
    (motive := fun (start : Session σ) trail finish =>
      finish.context = start.context ∧ askedOf trail = [])
    ?_ (first session) fun result _ => second result _
  rintro _ _ _ _ _ ⟨same, silent⟩ ⟨still, quiet⟩
  exact ⟨still.trans same, by simp [silent, quiet]⟩

/-- By induction on its members, so is a loop. -/
theorem forEach (members : List α) {step : α → Operation σ Unit}
    (each : ∀ member, Aside (step member)) : Aside (Effect.forEach members step) :=
  Effect.forEach_induction (ofReads (.pure ())) (fun _ _ first next => first.bind fun _ => next)
    fun member _ => each member

end Aside

/-- To print an entry asks the store for nothing. -/
theorem aside_printEntry (backend : Backend σ) (now : Instant) (statistics : Bool)
    (entry : Text × ShelfRecord) : Aside (printEntry backend now statistics entry) := by
  refine .bind (.emit rfl) fun _ => ?_
  split
  · refine .bind (.bind (.emit rfl) fun _ => .consult _) fun summary => ?_
    have summarizes : Aside (printSummary summary : Operation σ Unit) := by
      rw [printSummary]
      split
      · exact .ofReads (.pure ())
      · exact .emit rfl
    exact summarizes.bind fun _ => .emit rfl
  · exact .ofReads (.pure ())

/-- How a quiet listing and a loud one end, from sessions that are alike: both stop before the
first record, or the quiet one prints them all and the loud one goes on to summarize. -/
theorem listing_cases (backend : Backend σ) (surroundings : Surroundings)
    (arguments : List Argument) {left right : Session σ} (alike : Alike left right) :
    let quiet := (listing backend surroundings arguments false).run left
    let loud := (listing backend surroundings arguments true).run right
    (∃ reason, ((entriesOf backend surroundings arguments).run right).result = .error reason ∧
      quiet = ⟨.error reason, ((entriesOf backend surroundings arguments).run left).world,
        ((entriesOf backend surroundings arguments).run left).events⟩ ∧
      loud.result = .error reason) ∨
    ∃ entries, ((entriesOf backend surroundings arguments).run right).result = .ok entries ∧
      quiet = ⟨.ok (), ((entriesOf backend surroundings arguments).run left).world,
        ((entriesOf backend surroundings arguments).run left).events ++
          entries.map fun entry =>
            .printed (Listing.entryText entry.1 entry.2 surroundings.now)⟩ ∧
      loud.result = ((Effect.forEach entries (printEntry backend surroundings.now true)).run
        ((entriesOf backend surroundings arguments).run right).world).result := by
  intro quiet loud
  have same := (concur_entriesOf backend surroundings arguments left right alike).result
  simp only [quiet, loud, listing]
  rw [Effect.run_bind, Effect.run_bind, same]
  cases ended : ((entriesOf backend surroundings arguments).run right).result with
  | error reason => exact .inl ⟨reason, rfl, rfl, rfl⟩
  | ok entries =>
      refine .inr ⟨entries, rfl, ?_, rfl⟩
      simp only [run_printEntries]

/-- A quiet listing leaves the store alone. -/
theorem world_quietListing (lists : ListsOnly backend) (session : Session σ) :
    ((listing backend surroundings arguments false).run session).world.world = session.world := by
  have same := world_entriesOf lists surroundings arguments session
  rcases listing_cases backend surroundings arguments (.refl session) with
    ⟨reason, -, quiet, -⟩ | ⟨entries, -, quiet, -⟩
  · rw [quiet]
    exact same
  · rw [quiet]
    exact same

/-- The quiet and the loud listing ask the store for the same. -/
theorem sameAsking_listing (backend : Backend σ) (surroundings : Surroundings)
    (arguments : List Argument) {left right : Session σ} (alike : Alike left right) :
    let quiet := (listing backend surroundings arguments false).run left
    let loud := (listing backend surroundings arguments true).run right
    askedOf quiet.events = askedOf loud.events ∧
      quiet.world.context.logMessage = loud.world.context.logMessage := by
  intro quiet loud
  obtain ⟨same, between, asked⟩ := concur_entriesOf backend surroundings arguments left right alike
  simp only [quiet, loud, listing]
  rw [Effect.run_bind, Effect.run_bind, same]
  cases ((entriesOf backend surroundings arguments).run right).result with
  | error reason => exact ⟨asked, between.logMessage⟩
  | ok entries =>
      have each (statistics : Bool) (session : Session σ) :=
        Aside.forEach entries (aside_printEntry backend surroundings.now statistics) session
      simp only [Session.askedOf_append, (each _ _).1, (each _ _).2, List.append_nil]
      exact ⟨asked, between.logMessage⟩

/-- Where every summary can be had, a loud listing ends like a quiet one. -/
theorem result_listing_of_summarized {left right : Session σ} (alike : Alike left right)
    (summarized : ∀ root records,
      ((backend.store.list root).run right.world).result = .ok records →
        Summarized backend records) :
    ((listing backend surroundings arguments false).run left).result =
      ((listing backend surroundings arguments true).run right).result := by
  rcases listing_cases backend surroundings arguments alike with
    ⟨reason, -, quiet, loud⟩ | ⟨entries, ended, quiet, loud⟩
  · rw [quiet, loud]
  · obtain ⟨root, records, -, listed, rfl⟩ := exists_of_entriesOf_ok ended
    rw [quiet, loud]
    refine (Effect.run_forEach (fun entry member session => ?_) _).1.symm
    have inside := (records.mem_inOrder_iff entry.1 entry.2).1 member
    exact (run_printEntry (summarized root records listed entry.1 entry.2 inside) session).1

/-- Something is printed by a quiet listing exactly if there is a record. -/
theorem exists_printed_iff {left right : Session σ} (lists : ListsOnly backend)
    (surroundings : Surroundings) (arguments : List Argument) (alike : Alike left right) :
    (∃ text, .printed text ∈ ((listing backend surroundings arguments false).run left).events) ↔
      ∃ entries, ((entriesOf backend surroundings arguments).run right).result = .ok entries ∧
        entries ≠ [] := by
  have silent (text : Text) :
      .printed text ∉ ((entriesOf backend surroundings arguments).run left).events :=
    fun shown => says_entriesOf lists left _ shown
  rcases listing_cases backend surroundings arguments alike with
    ⟨reason, ended, quiet, -⟩ | ⟨entries, ended, quiet, -⟩
  · simp [quiet, ended, silent]
  · rw [quiet, ended]
    constructor
    · rintro ⟨text, shown⟩
      refine ⟨entries, rfl, ?_⟩
      rintro rfl
      exact silent text (by simpa using shown)
    · rintro ⟨others, same, filled⟩
      obtain rfl := Except.ok.inj same
      obtain ⟨first, rest, rfl⟩ := List.exists_cons_of_ne_nil filled
      exact ⟨_, List.mem_append_right _ List.mem_cons_self⟩

/-- Without its summary, an entry stops the listing. -/
theorem result_printEntry_of_stop {entry : Text × ShelfRecord} {now : Instant} {reason : Stop}
    {session : Session σ}
    (stops : ((backend.summarize entry.2.patchPath).run session.world).result = .error reason) :
    ((printEntry backend now true entry).run session).result = .error reason := by
  have asked : ((Session.askSummary backend entry.2.patchPath).run session).result =
      .error reason := stops
  have printed : (Session.print (Listing.entryText entry.1 entry.2 now) :
      Operation σ Unit).run session =
        ⟨.ok (), session, [.printed (Listing.entryText entry.1 entry.2 now)]⟩ := rfl
  rw [printEntry, Effect.run_bind_ok printed, if_pos rfl, Effect.run_bind, asked]

/-- How a loud run ends beside a quiet one: in the same way, unless something hinders summaries
and the quiet run prints a record.  Then the loud one stops at that. -/
structure EndsBeside (hinders : Prop) (reason : Stop)
    (quiet loud : Outcome Event (Session σ) Unit) : Prop where
  alike : (hinders → ∀ text, .printed text ∉ quiet.events) → quiet.result = loud.result
  apart : hinders → ∀ text, .printed text ∈ quiet.events →
    quiet.result = .ok () ∧ loud.result = .error reason

/-- Where no summary can be had, a loud listing stops at its first record. -/
theorem endsBeside_of_unsummarized {left right : Session σ} {reason : Stop} {hinders : Prop}
    (lists : ListsOnly backend) (surroundings : Surroundings) (arguments : List Argument)
    (alike : Alike left right) (holds : hinders)
    (stops : ∀ path world, ((backend.summarize path).run world).result = .error reason) :
    EndsBeside hinders reason ((listing backend surroundings arguments false).run left)
      ((listing backend surroundings arguments true).run right) := by
  have printed := exists_printed_iff lists surroundings arguments alike
  rcases listing_cases backend surroundings arguments alike with
    ⟨why, ended, quiet, loud⟩ | ⟨entries, ended, quiet, loud⟩
  · refine ⟨fun _ => by rw [quiet, loud], fun _ text shown => ?_⟩
    obtain ⟨entries, same, -⟩ := printed.1 ⟨text, shown⟩
    cases ended.symm.trans same
  · have ends := congrArg Outcome.result quiet
    cases entries with
    | nil =>
        refine ⟨fun _ => by rw [quiet, loud]; rfl, fun _ text shown => ?_⟩
        obtain ⟨entries, same, filled⟩ := printed.1 ⟨text, shown⟩
        exact absurd (Except.ok.inj (same.symm.trans ended)) filled
    | cons first rest =>
        obtain ⟨text, shown⟩ := printed.2 ⟨_, ended, List.cons_ne_nil _ _⟩
        refine ⟨fun none => absurd shown (none holds text), fun _ _ _ => ⟨ends, ?_⟩⟩
        rw [loud]
        show ((printEntry backend surroundings.now true first >>= fun _ =>
          Effect.forEach rest (printEntry backend surroundings.now true)).run _).result = _
        rw [Effect.run_bind, result_printEntry_of_stop (stops _ _)]

/-! ### Both stores -/

open CommandLine (backendOf)

/-- The store in a working copy only looks when it lists. -/
theorem listsOnly_backendOf (settings : Settings) : ListsOnly (backendOf settings) :=
  ⟨fun root machine => (WorkingCopyStore.onlyLogs_list _ root machine).1,
    fun root => (WorkingCopyStore.onlyLogs_list _ root).notices_eq⟩

/-- A store in memory, with the same summary for every patch. -/
def memoryBackend (summary : Text) : Backend MemoryStore :=
  ⟨MemoryStore.store, fun _ => pure summary⟩

/-- The store in memory even answers without a trail. -/
theorem reads_memoryList (root : Text) : Effect.Reads (MemoryStore.list root) := by
  have checks : Effect.Reads MemoryStore.checkWorking := by
    refine .bind .look fun memory => ?_
    split
    · exact .fail _
    · exact .pure _
  exact .bind checks fun _ => .bind .look fun _ => .pure _

/-- The store in memory only looks when it lists. -/
theorem listsOnly_memoryBackend (summary : Text) : ListsOnly (memoryBackend summary) := by
  refine ⟨fun root memory => (reads_memoryList root memory).1, fun root memory => ?_⟩
  have silent := (reads_memoryList root memory).2
  exact congrArg Activity.notices silent

/-- The records of a working copy can be summarized, if the program can be called at all. -/
theorem summarized_backendOf {settings : Settings} {machine : Machine} {root : Text}
    {records : Shelves} (clean : settings.diffstatProgram.holds '\x00' = false)
    (listed : (((backendOf settings).store.list root).run machine).result = .ok records) :
    Summarized (backendOf settings) records := by
  intro key record known world
  obtain ⟨found, names, -, -, -, recorded⟩ := WorkingCopyStore.exists_of_list_ok listed known
  exact DiffStat.exists_summary clean recorded.noNull world

/-- In a working copy, only a program with a name that no call can hold tells a loud listing
from a quiet one. -/
theorem endsBeside_listing (settings : Settings) (surroundings : Surroundings)
    (arguments : List Argument) {left right : Session Machine} (alike : Alike left right) :
    EndsBeside (settings.diffstatProgram.holds '\x00' = true) (.fault .embeddedNull)
      ((listing (backendOf settings) surroundings arguments false).run left)
      ((listing (backendOf settings) surroundings arguments true).run right) := by
  cases clean : settings.diffstatProgram.holds '\x00' with
  | true =>
      exact endsBeside_of_unsummarized (listsOnly_backendOf settings) surroundings arguments alike
        rfl (DiffStat.result_summarize_of_null clean)
  | false =>
      exact ⟨fun _ => result_listing_of_summarized alike fun _ _ => summarized_backendOf clean,
        nofun⟩

/-- In every session, what the operation itself does leaves the files. -/
def LeavesFiles {α : Type} (action : Operation Machine α) : Prop :=
  ∀ session, Stretches (· = ·) session.world.tree
    (Session.ranCalls (action.run session).events) (action.run session).world.world.tree

namespace LeavesFiles

variable {α β : Type}

theorem ofReads {action : Operation Machine α} (reads : Effect.Reads action) :
    LeavesFiles action := by
  intro session
  obtain ⟨same, silent⟩ := reads session
  rw [same, silent]
  rfl

theorem emit {event : Event} (other : event.ran? = none) :
    LeavesFiles (Effect.emit event : Operation Machine Unit) := by
  intro session
  have none : Session.ranCalls [event] = [] := by simp [Session.ranCalls, other]
  rw [Effect.run_emit, none]
  rfl

/-- An outside action leaves the files if each of its steps does. -/
theorem consult {action : Machine.Operation α}
    (passes : ∀ machine, Machine.Passes (· = ·) action machine) :
    LeavesFiles (Session.consult action) := by
  intro session
  have made : Session.ranCalls ((Session.consult action).run session).events =
      Activity.calls (action.run session.world).events :=
    Session.ranCalls_admitted _ _
  rw [made]
  exact passes session.world

/-- A sequence leaves the files if its parts do. -/
theorem bind {action : Operation Machine α} {next : α → Operation Machine β}
    (first : LeavesFiles action) (second : ∀ result, LeavesFiles (next result)) :
    LeavesFiles (action >>= next) := by
  intro session
  refine Effect.run_bind_induction
    (motive := fun (start : Session Machine) trail finish =>
      Stretches (· = ·) start.world.tree (Session.ranCalls trail) finish.world.tree)
    ?_ (first session) fun result _ => second result _
  intro _ _ _ _ _ before after
  have trans (one two three : FileTree) : one = two → two = three → one = three := Eq.trans
  simpa [Session.ranCalls] using before.append trans after

/-- By induction on its members, a loop leaves the files if its steps do. -/
theorem forEach {members : List α} {step : α → Operation Machine Unit}
    (each : ∀ member, LeavesFiles (step member)) :
    LeavesFiles (Effect.forEach members step) :=
  Effect.forEach_induction (ofReads (.pure ())) (fun _ _ first next => first.bind fun _ => next)
    fun member _ => each member

end LeavesFiles

/-- The summary of a patch is left to the program. -/
theorem passes_summarize (program patchPath : Text) (machine : Machine) :
    Machine.Passes (· = ·) (DiffStat.summarize program patchPath) machine := by
  have trans (one two three : FileTree) : one = two → two = three → one = three := Eq.trans
  refine .bind_reads (fun _ => rfl) .look fun world _ => ?_
  refine .bind trans (.attempt (.call (fun _ => rfl) _ _ _)) fun ended _ => ?_
  have logged (record : LogRecord) (machine : Machine) : Machine.Passes (· = ·)
      (Effect.emit (.logged record) >>= fun _ => pure ([] : Text)) machine :=
    .bind trans (.logged (fun _ => rfl) _) fun _ _ => .ofReads (fun _ => rfl) (.pure _)
  split
  · exact logged _ _
  · exact .ofReads (fun _ => rfl) (.stop _)
  · split
    · exact .ofReads (fun _ => rfl) (.pure _)
    · exact logged _ _

/-- Neither listing changes a file. -/
theorem leavesFiles_listing (settings : Settings) (surroundings : Surroundings)
    (arguments : List Argument) (statistics : Bool) :
    LeavesFiles (listing (backendOf settings) surroundings arguments statistics) := by
  have lists (root : Text) (machine : Machine) :
      Machine.Passes (· = ·) ((backendOf settings).store.list root) machine :=
    (WorkingCopyStore.Rehearses.ofOnlyLogs (WorkingCopyStore.onlyLogs_list _ root)).passes machine
  have entries : LeavesFiles (entriesOf (backendOf settings) surroundings arguments) := by
    refine .bind (.ofReads (.ofAccess _)) fun root => .bind (.ofReads (.ofChecked _)) fun _ => ?_
    refine .bind (.bind (.emit rfl) fun _ => .consult (lists root)) fun records => ?_
    exact .bind (.emit rfl) fun _ => .ofReads (.pure _)
  refine entries.bind fun all => .forEach fun entry => .bind (.emit rfl) fun _ => ?_
  split
  · refine .bind (.bind (.emit rfl) fun _ => .consult (passes_summarize _ _)) fun summary => ?_
    have prints : LeavesFiles (printSummary summary) := by
      rw [printSummary]
      split
      · exact .ofReads (.pure ())
      · exact .emit rfl
    exact prints.bind fun _ => .emit rfl
  · exact .ofReads (.pure ())

/-- In memory, a listing leaves the store alone, with statistics as well. -/
theorem world_memoryListing (summary : Text) (surroundings : Surroundings)
    (arguments : List Argument) (statistics : Bool) (session : Session MemoryStore) :
    ((listing (memoryBackend summary) surroundings arguments statistics).run
      session).world.world = session.world := by
  have prints (entry : Text × ShelfRecord) :
      Session.Talks (printEntry (memoryBackend summary) surroundings.now statistics entry) := by
    refine .bind (.print _) fun _ => ?_
    split
    · refine .bind (.bind (.emit rfl) fun _ => fun _ => ⟨rfl, rfl⟩) fun shown => ?_
      have summarizes : Session.Talks (printSummary shown : Operation MemoryStore Unit) := by
        rw [printSummary]
        split
        · exact .ofReads (.pure ())
        · exact .print _
      exact summarizes.bind fun _ => .print _
    · exact .ofReads (.pure ())
  have begins := world_entriesOf (listsOnly_memoryBackend summary) surroundings arguments session
  rw [listing, Effect.run_bind]
  cases ((entriesOf (memoryBackend summary) surroundings arguments).run session).result with
  | error reason => exact begins
  | ok entries =>
      have goes : Session.Talks (Effect.forEach entries
          (printEntry (memoryBackend summary) surroundings.now statistics)) := .forEach prints
      exact (goes _).1.trans begins

end Commands

end PatchShelf
