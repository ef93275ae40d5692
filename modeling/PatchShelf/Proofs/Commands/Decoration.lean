/-
Module: PatchShelf.Proofs.Commands.Decoration
Purpose: What the program that summarizes patches can change about a listing.
Main exports:
  Session.summarizedOf, Commands.block, Commands.Decorated, Commands.decorated_forEach,
  Commands.ListsAloud, Commands.statistics_only_decorate
-/
import PatchShelf.Proofs.Commands.Conduct
import PatchShelf.Proofs.Commands.PassedOn
import PatchShelf.Proofs.Commands.Quiet
import PatchShelf.Proofs.Store.ProgramsAside

/-!
A loud listing is a loop over the records of the store.  Each turn prints the entry, asks for the
summary of its patch, prints that if there is one, and ends with an empty line.  Which records
there are is settled before the first turn, without a look at the programs; so two programs can
tell their listings apart only by what stands between an entry and its empty line, unless a NUL
in a call stops one of them.
-/

namespace PatchShelf

/-- The patch whose summary an event asks for, if it does. -/
def Event.summarized? : Event → Option Text
  | activity _ => none
  | asked _ => none
  | summarized patchPath => some patchPath
  | printed _ => none
  | warned _ => none

namespace Session

/-- The patches whose summaries a trail asks for, in their order. -/
def summarizedOf (trail : List Event) : List Text :=
  trail.filterMap Event.summarized?

@[simp] theorem summarizedOf_append (first second : List Event) :
    summarizedOf (first ++ second) = summarizedOf first ++ summarizedOf second :=
  List.filterMap_append

@[simp] theorem summarizedOf_admitted (context : Context) (trail : List Activity) :
    summarizedOf (trail.filterMap context.admit?) = [] :=
  Context.filterMap_admitted (fun _ => rfl) context trail

/-- A trail of lines prints them. -/
theorem printedOf_lines (lines : List Text) : printedOf (lines.map .printed) = lines := by
  rw [printedOf, List.filterMap_map]
  exact List.filterMap_some

/-- A trail of lines asks for no summary. -/
theorem summarizedOf_lines (lines : List Text) : summarizedOf (lines.map .printed) = [] := by
  rw [summarizedOf, List.filterMap_map]
  exact List.filterMap_eq_nil_iff.2 fun _ _ => rfl

/-- A trail of lines runs no program. -/
theorem ranCalls_lines (lines : List Text) : ranCalls (lines.map .printed) = [] := by
  rw [ranCalls, List.filterMap_map]
  exact List.filterMap_eq_nil_iff.2 fun _ _ => rfl

end Session

namespace Commands

open CommandLine (backendOf)
open DiffStat (Passable answer? answers behind summaryOf)
open Machine (SameFiles SeesFiles)
open Session (Operation printedOf ranCalls summarizedOf)

/-! ### One entry -/

/-- A store with a program for the summaries of its patches. -/
def decoratedBy (store : ShelfStore Machine) (program : Text) : Backend Machine :=
  ⟨store, DiffStat.summarize program⟩

/-- The lines behind an entry: the summary if there is one, and an empty line. -/
def summaryLines (summary : Text) : List Text :=
  if summary = [] then [[]] else [summary.dropEndWhile (·.isChar '\n'), []]

/-- What is printed of one shelf when the program answers so. -/
def block (now : Instant) (entry : Text × ShelfRecord) (answer : Option Reply) : List Text :=
  Listing.entryText entry.1 entry.2 now :: summaryLines (summaryOf answer)

variable {store : ShelfStore Machine} {program : Text} {now : Instant}
  {entry : Text × ShelfRecord}

/-- A summary is printed line by line, with an empty line behind it. -/
theorem run_summaryLines (summary : Text) (session : Session Machine) :
    ((printSummary summary >>= fun _ => Session.print []).run session) =
      ⟨.ok (), session, (summaryLines summary).map .printed⟩ := by
  rw [printSummary, summaryLines]
  split
  · rfl
  · rfl

/-- An entry is printed, and then its statistics. -/
theorem run_printEntry_aloud (backend : Backend Machine) (session : Session Machine) :
    (printEntry backend now true entry).run session =
      let statistics := (printStatistics backend entry.2.patchPath).run session
      ⟨statistics.result, statistics.world,
        [.printed (Listing.entryText entry.1 entry.2 now)] ++ statistics.events⟩ := rfl

/-- An entry whose patch can be named in a call is printed with what the program answers. -/
theorem run_printEntry_of_passable (store : ShelfStore Machine) (now : Instant)
    (passable : Passable program entry.2.patchPath) (session : Session Machine) :
    let outcome := (printEntry (decoratedBy store program) now true entry).run session
    outcome.result = .ok () ∧
      outcome.world = ⟨session.context, behind program session.world entry.2.patchPath⟩ ∧
      printedOf outcome.events =
        block now entry (answer? program session.world entry.2.patchPath) ∧
      summarizedOf outcome.events = [entry.2.patchPath] ∧
      ranCalls outcome.events =
        ((answer? program session.world entry.2.patchPath).map fun _ =>
          session.world.callMade program session.world.directory [entry.2.patchPath]).toList := by
  intro outcome
  obtain ⟨given, left, calls⟩ := DiffStat.run_summarize_of_passable passable session.world
  have asked : (Session.askSummary (decoratedBy store program) entry.2.patchPath).run session =
      ⟨.ok (summaryOf (answer? program session.world entry.2.patchPath)),
        ⟨session.context, behind program session.world entry.2.patchPath⟩,
        [.summarized entry.2.patchPath] ++
          ((DiffStat.summarize program entry.2.patchPath).run session.world).events.filterMap
            session.context.admit?⟩ := by
    rw [← given, ← left]
    rfl
  simp only [outcome, run_printEntry_aloud, printStatistics]
  rw [Effect.run_bind_ok asked, run_summaryLines, ← calls,
    ← Session.ranCalls_admitted session.context]
  refine ⟨rfl, rfl, ?_, ?_, ?_⟩
  · simp only [Session.printedOf_append, Session.printedOf_admitted, Session.printedOf_lines]
    rfl
  · simp only [Session.summarizedOf_append, Session.summarizedOf_admitted,
      Session.summarizedOf_lines]
    rfl
  · simp only [Session.ranCalls_append, Session.ranCalls_lines, List.append_nil]
    rfl

/-- An entry whose patch cannot be named in a call is printed, and the listing stops. -/
theorem run_printEntry_of_impassable (impassable : ¬ Passable program entry.2.patchPath)
    (session : Session Machine) :
    (printEntry (decoratedBy store program) now true entry).run session =
      ⟨.error (.fault .embeddedNull), session,
        [.printed (Listing.entryText entry.1 entry.2 now), .summarized entry.2.patchPath]⟩ := by
  have asked : (Session.askSummary (decoratedBy store program) entry.2.patchPath).run session =
      ⟨.error (.fault .embeddedNull), session, [.summarized entry.2.patchPath]⟩ := by
    have stopped : (Session.consult ((decoratedBy store program).summarize
        entry.2.patchPath)).run session = ⟨.error (.fault .embeddedNull), session, []⟩ := by
      rw [Session.run_consult, decoratedBy]
      simp only [DiffStat.run_summarize_of_impassable impassable session.world]
      rfl
    rw [Session.askSummary, Effect.run_bind_ok (Effect.run_emit _ _), stopped]
    rfl
  rw [run_printEntry_aloud, printStatistics, Effect.run_bind_error asked]
  rfl

/-! ### The loop -/

/-- The entries before the first one whose patch cannot be named in a call. -/
def reached (program : Text) (entries : List (Text × ShelfRecord)) :
    List (Text × ShelfRecord) :=
  entries.takeWhile fun entry => Passable program entry.2.patchPath

/-- The first entry whose patch cannot be named in a call of the program. -/
def hindered? (program : Text) (entries : List (Text × ShelfRecord)) :
    Option (Text × ShelfRecord) :=
  entries.find? fun entry => !Passable program entry.2.patchPath

/-- The paths of the patches of some entries. -/
def patchPaths (entries : List (Text × ShelfRecord)) : List Text :=
  entries.map fun entry => entry.2.patchPath

/-- How a loud listing of these entries comes out, with this program on this machine. -/
structure Decorated (program : Text) (machine : Machine) (now : Instant)
    (entries : List (Text × ShelfRecord)) (outcome : Outcome Event (Session Machine) Unit) :
    Prop where
  /-- It ends well unless a call would hold a NUL. -/
  result : outcome.result =
    if hindered? program entries = none then .ok () else .error (.fault .embeddedNull)
  /-- It prints a block for each entry; the entry it stops at is printed alone. -/
  printed : printedOf outcome.events =
    ((reached program entries).zip
        (answers program machine (patchPaths (reached program entries)))).flatMap
      (fun shown => block now shown.1 shown.2) ++
    (hindered? program entries).toList.map fun entry => Listing.entryText entry.1 entry.2 now
  /-- It asks for one summary of each patch, in the order of the entries. -/
  summarized : summarizedOf outcome.events =
    patchPaths (reached program entries ++ (hindered? program entries).toList)
  /-- The program runs where it answers, once for each patch, and nothing else runs. -/
  called : (ranCalls outcome.events).map (fun call => (call.program, call.arguments)) =
    ((patchPaths (reached program entries)).zip
        (answers program machine (patchPaths (reached program entries)))).filterMap
      fun asked => asked.2.map fun _ => (program, [asked.1])

section Steps

variable {rest : List (Text × ShelfRecord)}

/-- An entry that can be passed is reached, and so are those behind it as far as they go. -/
theorem reached_cons (passable : Passable program entry.2.patchPath) :
    reached program (entry :: rest) = entry :: reached program rest :=
  List.takeWhile_cons_of_pos (by simpa using passable)

/-- The hindrance is not at an entry that can be passed. -/
theorem hindered?_cons (passable : Passable program entry.2.patchPath) :
    hindered? program (entry :: rest) = hindered? program rest :=
  List.find?_cons_of_neg (by simpa using passable)

/-- An entry that cannot be passed is not reached, nor is what is behind it. -/
theorem reached_of_impassable (impassable : ¬ Passable program entry.2.patchPath) :
    reached program (entry :: rest) = [] :=
  List.takeWhile_cons_of_neg (by simpa using impassable)

/-- The first entry that cannot be passed is the hindrance. -/
theorem hindered?_of_impassable (impassable : ¬ Passable program entry.2.patchPath) :
    hindered? program (entry :: rest) = some entry :=
  List.find?_cons_of_pos (by simpa using impassable)

/-- The listing goes on behind an entry whose patch can be named in a call. -/
theorem Decorated.behind_passable (passable : Passable program entry.2.patchPath)
    {session : Session Machine} {next : Operation Machine Unit}
    (later : Decorated program (behind program session.world entry.2.patchPath) now rest
      (next.run ⟨session.context, behind program session.world entry.2.patchPath⟩)) :
    Decorated program session.world now (entry :: rest)
      ((printEntry (decoratedBy store program) now true entry >>= fun _ => next).run session) := by
  obtain ⟨ended, after, printed, summarized, called⟩ :=
    run_printEntry_of_passable store now passable session
  rw [Effect.run_bind, ended, after]
  constructor
  · rw [hindered?_cons passable]
    exact later.result
  · simp only [Session.printedOf_append, printed, later.printed, reached_cons passable,
      hindered?_cons passable, patchPaths, List.map_cons, answers, List.zip_cons_cons,
      List.flatMap_cons, List.append_assoc]
  · simp only [Session.summarizedOf_append, summarized, later.summarized, reached_cons passable,
      hindered?_cons passable, patchPaths, List.cons_append, List.map_cons, List.nil_append]
  · simp only [Session.ranCalls_append, List.map_append, called, later.called,
      reached_cons passable, patchPaths, List.map_cons, answers, List.zip_cons_cons]
    cases answer? program session.world entry.2.patchPath with
    | none => rfl
    | some reply => rfl

/-- The listing stops at an entry whose patch cannot be named in a call. -/
theorem Decorated.at_impassable (impassable : ¬ Passable program entry.2.patchPath)
    (session : Session Machine) (next : Operation Machine Unit) :
    Decorated program session.world now (entry :: rest)
      ((printEntry (decoratedBy store program) now true entry >>= fun _ => next).run session) := by
  rw [Effect.run_bind_error (run_printEntry_of_impassable impassable session)]
  constructor
  · rw [hindered?_of_impassable impassable]
    rfl
  · rw [hindered?_of_impassable impassable, reached_of_impassable impassable]
    rfl
  · rw [hindered?_of_impassable impassable, reached_of_impassable impassable]
    rfl
  · rw [reached_of_impassable impassable]
    rfl

end Steps

/-- By induction on the entries, each one is printed and its patch summarized, up to the first that
hinders. -/
theorem decorated_forEach (store : ShelfStore Machine) (program : Text) (now : Instant)
    (entries : List (Text × ShelfRecord)) (session : Session Machine) :
    Decorated program session.world now entries
      ((Effect.forEach entries (printEntry (decoratedBy store program) now true)).run session) := by
  induction entries generalizing session with
  | nil => exact ⟨rfl, rfl, rfl, rfl⟩
  | cons entry rest ih =>
      by_cases passable : Passable program entry.2.patchPath
      · exact .behind_passable passable (ih ⟨_, _⟩)
      · exact .at_impassable passable session _

/-! ### Before the first entry -/

/-- The trail prints nothing, asks for no summary and calls no program. -/
structure Preliminary (trail : List Event) : Prop where
  printed : printedOf trail = []
  summarized : summarizedOf trail = []
  called : ranCalls trail = []

theorem Preliminary.nil : Preliminary [] :=
  ⟨rfl, rfl, rfl⟩

/-- Two preliminaries in turn are one. -/
theorem Preliminary.append {first second : List Event} (before : Preliminary first)
    (behind : Preliminary second) : Preliminary (first ++ second) :=
  ⟨by rw [Session.printedOf_append, before.printed, behind.printed]; rfl,
    by rw [Session.summarizedOf_append, before.summarized, behind.summarized]; rfl,
    by rw [Session.ranCalls_append, before.called, behind.called]; rfl⟩

/-- In sessions with this context, on machines with the files of this one, the operation runs
in one way, whatever the programs are.  It leaves everything as it is. -/
def Settled {α : Type} (context : Context) (machine : Machine)
    (action : (program : Text) → Operation Machine α) : Prop :=
  ∃ result trail, Preliminary trail ∧ ∀ program (session : Session Machine),
    session.context = context → SameFiles machine session.world →
      (action program).run session = ⟨result, session, trail⟩

namespace Settled

variable {α β : Type} {context : Context} {machine : Machine}

theorem pure (result : α) :
    Settled context machine fun _ => (Pure.pure result : Operation Machine α) :=
  ⟨_, [], .nil, fun _ _ _ _ => rfl⟩

/-- A look at the files comes before any program, so its name does not matter. -/
theorem ofAccess (access : Except Fault α) :
    Settled context machine fun _ => (Effect.ofAccess access : Operation Machine α) := by
  cases access with
  | error fault => exact ⟨_, [], .nil, fun _ _ _ _ => rfl⟩
  | ok result => exact .pure result

theorem ofChecked (checked : Except Failure α) :
    Settled context machine fun _ => (Effect.ofChecked checked : Operation Machine α) := by
  cases checked with
  | error failure => exact ⟨_, [], .nil, fun _ _ _ _ => rfl⟩
  | ok result => exact .pure result

theorem emit {event : Event} (preliminary : Preliminary [event]) :
    Settled context machine fun _ => (Effect.emit event : Operation Machine Unit) :=
  ⟨_, _, preliminary, fun _ _ _ _ => rfl⟩

/-- A sequence is settled if its parts are, the second one for every result. -/
theorem bind {action : Text → Operation Machine α} {next : Text → α → Operation Machine β}
    (first : Settled context machine action)
    (second : ∀ result, Settled context machine fun program => next program result) :
    Settled context machine fun program => action program >>= next program := by
  obtain ⟨result, trail, preliminary, runs⟩ := first
  cases result with
  | error reason =>
      exact ⟨_, trail, preliminary, fun program session known same =>
        Effect.run_bind_error (runs program session known same)⟩
  | ok result =>
      obtain ⟨last, more, further, goes⟩ := second result
      refine ⟨last, trail ++ more, preliminary.append further, fun program session known same => ?_⟩
      rw [Effect.run_bind_ok (runs program session known same), goes program session known same]

/-- What a store lists is settled if it looks at the files only and only logs. -/
theorem consult {action : Machine.Operation α} (sees : SeesFiles action)
    (logs : Machine.OnlyLogs action) :
    Settled context machine fun _ => Session.consult action := by
  refine ⟨(action.run machine).result, (action.run machine).events.filterMap context.admit?,
    ⟨Session.printedOf_admitted _ _, Session.summarizedOf_admitted _ _, ?_⟩,
    fun _ session known same => ?_⟩
  · rw [Session.ranCalls_admitted]
    exact logs.calls_run machine
  · subst known
    obtain ⟨ended, trail, -⟩ := sees machine session.world same
    rw [Session.run_consult, ended, trail, (logs session.world).1]

end Settled

/-- The entries are the same whatever program would summarize them. -/
theorem settled_inOrder {root : Text} {context : Context} {machine : Machine}
    (sees : SeesFiles (store.list root)) (logs : Machine.OnlyLogs (store.list root)) :
    Settled context machine fun program => inOrder (decoratedBy store program) root := by
  refine .bind (.bind (.emit ⟨rfl, rfl, rfl⟩) fun _ => .consult sees logs) fun records => ?_
  exact .bind (.emit ⟨rfl, rfl, rfl⟩) fun _ => .pure _

/-- What a command goes through that is to list aloud: it checks its arguments and finds where
it is, and has the records in their order. -/
def begins (surroundings : Surroundings) (arguments : List Argument) (backend : Backend Machine) :
    Command → Operation Machine (List (Text × ShelfRecord))
  | .shelves => do
    Effect.ofChecked (Arguments.requireNone arguments)
    let root ← Effect.ofAccess surroundings.root
    inOrder backend root
  | .shelve | .unshelve => entriesOf backend surroundings arguments

/-- The command lists the shelves with statistics. -/
def ListsAloud (command : Command) (options : Options) : Prop :=
  command = .shelves ∨ options.listOnly = true ∧ options.quiet = false

/-- To list aloud is to begin and then to print each entry. -/
theorem run_of_listsAloud {command : Command} {options : Options}
    (aloud : ListsAloud command options) (surroundings : Surroundings)
    (arguments : List Argument) (backend : Backend Machine) :
    command.run backend surroundings arguments options =
      begins surroundings arguments backend command >>= fun entries =>
        Effect.forEach entries (printEntry backend surroundings.now true) := by
  cases command with
  | shelves =>
      rw [Command.run, shelves, begins]
      simp only [Effect.bind_assoc]
      rfl
  | shelve =>
      obtain ⟨only, loud⟩ := aloud.resolve_left (by decide)
      rw [Command.run, shelve_of_lists only, if_neg (by simp [loud])]
      rfl
  | unshelve =>
      obtain ⟨only, loud⟩ := aloud.resolve_left (by decide)
      rw [Command.run, unshelve_of_lists only, loud]
      rfl

/-- What comes before the entries does not depend on the program. -/
theorem settled_begins (context : Context) (machine : Machine)
    (sees : ∀ root, SeesFiles (store.list root))
    (logs : ∀ root, Machine.OnlyLogs (store.list root)) (surroundings : Surroundings)
    (arguments : List Argument) (command : Command) :
    Settled context machine fun program =>
      begins surroundings arguments (decoratedBy store program) command := by
  have orders (root : Text) :
      Settled context machine fun program => inOrder (decoratedBy store program) root :=
    settled_inOrder (sees root) (logs root)
  cases command with
  | shelves =>
      exact .bind (.ofChecked _) fun _ => .bind (.ofAccess _) fun root => orders root
  | shelve | unshelve =>
      exact .bind (.ofAccess _) fun root => .bind (.ofChecked _) fun _ => orders root

/-- Who begins well has a root and the records of a listing. -/
theorem exists_of_begins_ok {surroundings : Surroundings} {arguments : List Argument}
    {backend : Backend Machine} {command : Command} {session : Session Machine}
    {entries : List (Text × ShelfRecord)}
    (ended : ((begins surroundings arguments backend command).run session).result = .ok entries) :
    ∃ root records, surroundings.root = .ok root ∧
      ((backend.store.list root).run session.world).result = .ok records ∧
      entries = records.inOrder := by
  cases command with
  | shelves =>
      obtain ⟨done, -, ended⟩ := (Effect.Reads.ofChecked _).exists_of_bind_ok ended
      obtain ⟨root, located, ended⟩ := (Effect.Reads.ofAccess _).exists_of_bind_ok ended
      obtain ⟨records, listed, same⟩ := exists_of_inOrder_ok ended
      rw [Effect.run_ofAccess] at located
      exact ⟨root, records, mapError_eq_ok_iff.1 located, listed, same⟩
  | shelve | unshelve => exact exists_of_entriesOf_ok ended

/-- What comes before has no part in it. -/
theorem Decorated.behind_preliminary {machine : Machine} {entries : List (Text × ShelfRecord)}
    {trail : List Event} {outcome : Outcome Event (Session Machine) Unit}
    (preliminary : Preliminary trail)
    (decorated : Decorated program machine now entries outcome) :
    Decorated program machine now entries
      ⟨outcome.result, outcome.world, trail ++ outcome.events⟩ := by
  obtain ⟨printed, summarized, called⟩ := preliminary
  constructor
  · exact decorated.result
  · rw [Session.printedOf_append, printed]
    exact decorated.printed
  · rw [Session.summarizedOf_append, summarized]
    exact decorated.summarized
  · rw [Session.ranCalls_append, called]
    exact decorated.called

/-- To list its shelves, the store looks at the files of a machine and logs, and does nothing
else. -/
structure ListsFiles (store : ShelfStore Machine) : Prop where
  sees : ∀ root, SeesFiles (store.list root)
  logs : ∀ root, Machine.OnlyLogs (store.list root)

/-- The store in a working copy is one that lists the files. -/
theorem listsFiles_workingCopy (settings : WorkingCopyStore) : ListsFiles settings.store :=
  ⟨WorkingCopyStore.seesFiles_list settings, WorkingCopyStore.onlyLogs_list settings⟩

/-- Behind an entry there is nothing but the empty line exactly if the program is not run for it,
fails or prints nothing. -/
theorem block_eq_bare_iff (now : Instant) (entry : Text × ShelfRecord) (answer : Option Reply) :
    block now entry answer = [Listing.entryText entry.1 entry.2 now, []] ↔
      answer = none ∨
        ∃ reply, answer = some reply ∧ (reply.status ≠ 0 ∨ reply.output = []) := by
  rw [← DiffStat.summaryOf_eq_nil_iff, block, summaryLines]
  split
  · simp_all
  · simp_all

/-- Programs whose names both hold a NUL, or both hold none, are hindered at the same entry. -/
theorem hindered?_eq_of_holds_eq {one two : Text} (alike : one.holds '\x00' = two.holds '\x00') :
    hindered? one = hindered? two ∧ reached one = reached two := by
  have same (path : Text) : Passable one path ↔ Passable two path := by
    rw [Passable, Passable, alike]
  constructor
  · funext entries
    simp only [hindered?, same]
  · funext entries
    simp only [reached, same]

/-- A loud listing with one program and with another one, on machines that differ in nothing but
their programs.  Both stop before the first entry, for one reason and with one trail; or they go
through the same records in the same order, and `Decorated` tells all that they print, ask for and
run.  A NUL in one of the names is the only thing that makes them end apart. -/
theorem statistics_only_decorate {store : ShelfStore Machine} (lists : ListsFiles store)
    {command : Command} {options : Options} (aloud : ListsAloud command options)
    (surroundings : Surroundings) (arguments : List Argument) (one two : Text)
    {left right : Session Machine} (known : left.context = right.context)
    (same : SameFiles left.world right.world) :
    let first := (command.run (decoratedBy store one) surroundings arguments options).run left
    let second := (command.run (decoratedBy store two) surroundings arguments options).run right
    ((∃ reason, first.result = .error reason ∧ second.result = .error reason ∧
        first.events = second.events ∧ Preliminary first.events) ∨
      ∃ root records, surroundings.root = .ok root ∧
        ((store.list root).run left.world).result = .ok records ∧
        Decorated one left.world surroundings.now records.inOrder first ∧
        Decorated two right.world surroundings.now records.inOrder second) ∧
      (one.holds '\x00' = two.holds '\x00' →
        first.result = second.result ∧
          summarizedOf first.events = summarizedOf second.events) ∧
      ∀ entry answer, block surroundings.now entry answer =
          [Listing.entryText entry.1 entry.2 surroundings.now, []] ↔
        answer = none ∨
          ∃ reply, answer = some reply ∧ (reply.status ≠ 0 ∨ reply.output = []) := by
  intro first second
  obtain ⟨result, trail, preliminary, runs⟩ := settled_begins left.context left.world
    lists.sees lists.logs surroundings arguments command
  have begun := runs one left rfl ⟨rfl, rfl⟩
  have alsoBegun := runs two right known.symm same
  simp only [first, second, run_of_listsAloud aloud]
  cases result with
  | error reason =>
      rw [Effect.run_bind_error begun, Effect.run_bind_error alsoBegun]
      exact ⟨.inl ⟨reason, rfl, rfl, rfl, preliminary⟩, fun _ => ⟨rfl, rfl⟩,
        block_eq_bare_iff surroundings.now⟩
  | ok entries =>
      obtain ⟨root, records, located, listed, rfl⟩ :=
        exists_of_begins_ok (congrArg Outcome.result begun)
      rw [Effect.run_bind_ok begun, Effect.run_bind_ok alsoBegun]
      have onLeft := (decorated_forEach store one surroundings.now records.inOrder
        left).behind_preliminary preliminary
      have onRight := (decorated_forEach store two surroundings.now records.inOrder
        right).behind_preliminary preliminary
      refine ⟨.inr ⟨root, records, located, listed, onLeft, onRight⟩, fun alike => ?_,
        block_eq_bare_iff surroundings.now⟩
      -- Where a listing is stopped depends on the name of its program only.
      obtain ⟨hindered, reach⟩ := hindered?_eq_of_holds_eq alike
      rw [onLeft.result, onRight.result, onLeft.summarized, onRight.summarized, hindered, reach]
      exact ⟨rfl, rfl⟩

/-- The shelf of a machine is listed, with a program for the summaries. -/
def decoratedOn (program : Text) (machine : Machine) : Outcome Event (Session Machine) Unit :=
  (Command.shelves.run (decoratedBy (storeOf usualSettings).store program) (surroundingsOn machine)
    [] {}).run (sessionOn machine)

/-- The same machine without any program. -/
def bareMachine : Machine :=
  { listedMachine with programs := .empty }

/-- The entry of the shelf is printed with a summary, without one where the program is not there,
and alone where its name holds a NUL. -/
theorem statistics_only_decorate_listed :
    let entry : Text := "n                                   0 mins old          9 bytes\n "
    printedOf (decoratedOn "diffstat" listedMachine).events = [entry, " a | 1 +", []] ∧
      printedOf (decoratedOn "gone" bareMachine).events = [entry, []] ∧
      (decoratedOn "diffstat" listedMachine).result = (decoratedOn "gone" bareMachine).result ∧
      printedOf (decoratedOn "diff\x00stat" bareMachine).events = [entry] ∧
      (decoratedOn "diff\x00stat" bareMachine).result = .error (.fault .embeddedNull) := by
  intro entry
  have lists := listsFiles_workingCopy (storeOf usualSettings)
  have listed : (((storeOf usualSettings).store.list "/wc").run listedMachine).result =
      .ok (.ofList [(Shelf.keyOf "n", loneRecord "n" (by decide))]) := by decide +kernel
  have alone : Shelves.inOrder (.ofList [(Shelf.keyOf "n", loneRecord "n" (by decide))]) =
      [(Shelf.keyOf "n", loneRecord "n" (by decide))] := by decide +kernel
  have located : (surroundingsOn listedMachine).root = .ok "/wc" := by decide +kernel
  have ended : (decoratedOn "diffstat" listedMachine).result = .ok () := by decide +kernel
  have known : (sessionOn listedMachine).context = (sessionOn bareMachine).context := rfl
  have same : SameFiles (sessionOn listedMachine).world (sessionOn bareMachine).world := ⟨rfl, rfl⟩
  have beside (program : Text) := statistics_only_decorate lists (.inl rfl : ListsAloud .shelves {})
    (surroundingsOn listedMachine) [] "diffstat" program known same
  have decorated (program : Text) :
      Decorated "diffstat" listedMachine .epoch [(Shelf.keyOf "n", loneRecord "n" (by decide))]
          (decoratedOn "diffstat" listedMachine) ∧
        Decorated program bareMachine .epoch [(Shelf.keyOf "n", loneRecord "n" (by decide))]
          (decoratedOn program bareMachine) := by
    obtain ⟨⟨reason, stopped, -⟩ | ⟨root, records, here, known, onLeft, onRight⟩, -⟩ :=
      beside program
    · cases ended.symm.trans stopped
    · obtain rfl := Except.ok.inj (located.symm.trans here)
      obtain rfl := Except.ok.inj (listed.symm.trans known)
      rw [alone] at onLeft onRight
      exact ⟨onLeft, onRight⟩
  refine ⟨?_, ?_, ?_, ?_, ?_⟩
  · rw [(decorated "gone").1.printed]
    decide +kernel
  · rw [(decorated "gone").2.printed]
    decide +kernel
  · exact ((beside "gone").2.1 (by decide)).1
  · rw [(decorated "diff\x00stat").2.printed]
    decide +kernel
  · rw [(decorated "diff\x00stat").2.result]
    decide +kernel

end Commands

end PatchShelf
