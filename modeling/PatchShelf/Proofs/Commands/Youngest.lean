/-
Module: PatchShelf.Proofs.Commands.Youngest
Purpose: Without a name, the shelf is applied that a listing shows last.
Main exports:
  Session.Carries, Commands.PrintsLast, Commands.AppliesOnly, Commands.carries_unshelve,
  Commands.unshelves_lastListed, Commands.unshelves_nothing_of_refused
-/
import PatchShelf.Proofs.Commands.Conduct
import PatchShelf.Proofs.LineStream
import PatchShelf.Proofs.ShelfOrder
import PatchShelf.Proofs.Store.ListedFiles

/-!
The last shelf of a listing and the youngest shelf are found by the same order of the records.
The name of the youngest one then makes a round trip: the suffix is taken off its key, the store
puts it back, and the path guard of the store lets the name pass unchecked by the command.

Before the shelf is applied, its name is told.  A stream that refuses the name, since it takes no
stray bytes, ends the command there; what it refuses later comes too late to keep the shelf from
being applied.
-/

namespace PatchShelf

namespace Session

variable {σ α : Type}

/-- The work of a store shows in the trail, and nothing else there calls a program. -/
def Carries (work : List Activity) (trail : List Event) : Prop :=
  ∃ before context after,
    trail = before ++ work.filterMap (Context.admit? context) ++ after ∧
      ranCalls before = [] ∧ ranCalls after = []

namespace Carries

variable {work : List Activity} {trail : List Event} {audience : Audience Event}

theorem ranCalls_eq (carries : Carries work trail) : ranCalls trail = Activity.calls work := by
  obtain ⟨before, context, after, rfl, first, last⟩ := carries
  rw [ranCalls_append, ranCalls_append, first, last, ranCalls_admitted, List.nil_append,
    List.append_nil]

theorem logged {record : LogRecord} (carries : Carries work trail)
    (member : .logged record ∈ work) : .activity (.logged record) ∈ trail := by
  obtain ⟨before, context, after, rfl, -⟩ := carries
  refine List.mem_append_left _ (List.mem_append_right _ ?_)
  exact List.mem_filterMap.2 ⟨_, member, rfl⟩

/-- What comes before and calls no program makes no difference. -/
theorem prepend {early : List Event} (unran : ranCalls early = [])
    (carries : Carries work trail) : Carries work (early ++ trail) := by
  obtain ⟨before, context, after, rfl, first, last⟩ := carries
  refine ⟨early ++ before, context, after, ?_, ?_, last⟩
  · simp only [List.append_assoc]
  · rw [ranCalls_append, unran, first]
    rfl

/-- What comes behind and calls no program makes no difference either. -/
theorem append {late : List Event} (carries : Carries work trail) (unran : ranCalls late = []) :
    Carries work (trail ++ late) := by
  obtain ⟨before, context, after, rfl, first, last⟩ := carries
  refine ⟨before, context, after ++ late, List.append_assoc _ _ _, first, ?_⟩
  rw [ranCalls_append, last, unran]
  rfl

theorem followed {action : Operation σ α} {next : α → Operation σ Unit} {session : Session σ}
    (carries : Carries work (action.runBefore audience session).events)
    (unran : ∀ result after, ranCalls ((next result).runBefore audience after).events = []) :
    Carries work ((action >>= next).runBefore audience session).events := by
  rw [Effect.runBefore_bind, Effect.chain]
  split
  · exact carries
  · exact carries.append (unran _ _)

/-- Behind a step that is taken and calls no program, the trail carries what the rest of it
carries. -/
theorem behind {action : Operation σ α} {next : α → Operation σ Unit} {session : Session σ}
    {result : α} (takes : audience.Takes (action.run session).events)
    (ended : (action.run session).result = .ok result)
    (unran : ranCalls (action.run session).events = [])
    (later : Carries work
      ((next result).runBefore audience (action.run session).world).events) :
    Carries work ((action >>= next).runBefore audience session).events := by
  rw [Effect.runBefore_bind_of_takes takes, Effect.chain, ended]
  exact later.prepend unran

/-- A step that only talks calls no program. -/
theorem behind_talks {action : Operation σ α} {next : α → Operation σ Unit}
    {session : Session σ} {result : α} (talks : Talks action)
    (takes : audience.Takes (action.run session).events)
    (ended : (action.run session).result = .ok result)
    (later : ∀ context, Carries work
      ((next result).runBefore audience ⟨context, session.world⟩).events) :
    Carries work ((action >>= next).runBefore audience session).events := by
  obtain ⟨same, silent⟩ := talks session
  refine behind takes ended ?_ ?_
  · rw [← ranCalls_dealings, silent]
    rfl
  · rw [← same] at later
    exact later _

/-- What reads leaves nothing to be refused. -/
theorem behind_reads {action : Operation σ α} {next : α → Operation σ Unit}
    {session : Session σ} {result : α} (reads : Effect.Reads action)
    (ended : (action.run session).result = .ok result)
    (later : Carries work ((next result).runBefore audience session).events) :
    Carries work ((action >>= next).runBefore audience session).events := by
  rw [reads.runBefore_bind_of_ok ended]
  exact later

end Carries

end Session

namespace Commands

open CommandLine (backendOf)
open Session (Carries Operation Talks printedOf)
open WorkingCopyStore (KeptPatch ListedAt OnlyRegularPatches findRoot patchArguments)

variable {σ : Type} {backend : Backend σ} {settings : Settings} {surroundings : Surroundings}
  {options : Options}

/-! ### The last shelf of a listing -/

/-- The listing prints the entry of this record behind those of all others, and then only what
is said in summary of its patch. -/
structure PrintsLast (backend : Backend σ) (now : Instant) (records : Shelves) (key : Text)
    (record : ShelfRecord) (outcome : Outcome Event (Session σ) Unit) : Prop where
  ended : outcome.result = .ok ()
  last : ∃ earlier later,
    outcome.events = earlier ++ .printed (Listing.entryText key record now) :: later ∧
      (∀ other shown, records.get? other = some shown → other ≠ key →
        .printed (Listing.entryText other shown now) ∈ earlier) ∧
      ∀ line, .printed line ∈ later → SummaryLine backend record.patchPath line

theorem printsLast_of_inOrder {root key : Text} {records : Shelves} {record : ShelfRecord}
    {before : List (Text × ShelfRecord)} {session : Session σ}
    (listed : ((backend.store.list root).run session.world).result = .ok records)
    (summarized : Summarized backend records) (parts : records.inOrder = before ++ [(key, record)])
    (others : ∀ other shown, records.get? other = some shown → other ≠ key →
      (other, shown) ∈ before) (now : Instant) :
    PrintsLast backend now records key record
      ((listShelves backend root now true).run session) := by
  have goes : ∀ entry ∈ records.inOrder, ∀ world : Session σ,
      ((printEntry backend now true entry).run world).result = .ok () ∧
        .printed (Listing.entryText entry.1 entry.2 now) ∈
          ((printEntry backend now true entry).run world).events :=
    fun entry member => run_printEntry (summarized entry.1 entry.2
      ((records.mem_inOrder_iff entry.1 entry.2).1 member))
  rw [parts] at goes
  -- The loop ends with the last entry, behind a loop over all the others.
  rw [listShelves, Effect.run_bind, result_inOrder listed, parts]
  simp only [Effect.forEach_concat]
  generalize (inOrder backend root).run session = ordered
  obtain ⟨ended, shown⟩ := Effect.run_forEach
    (fun entry member world => (goes entry (List.mem_append_left _ member) world).1) ordered.world
  rw [Effect.run_bind, ended]
  simp only
  generalize (Effect.forEach before (printEntry backend now true)).run ordered.world = listing
    at ended shown
  have own := goes (key, record) (List.mem_append_right _ (List.mem_singleton_self _)) listing.world
  have printed : (Session.print (Listing.entryText key record now) : Operation σ Unit).run
      listing.world = ⟨.ok (), listing.world, [.printed (Listing.entryText key record now)]⟩ := rfl
  have opened : printEntry backend now true (key, record) =
      Session.print (Listing.entryText key record now) >>= fun _ =>
        printStatistics backend record.patchPath := rfl
  refine ⟨own.1, ordered.events ++ listing.events,
    ((printStatistics backend record.patchPath).run listing.world).events, ?_,
    fun other known there apart => ?_, fun line told => ?_⟩
  · rw [opened, Effect.run_bind_ok printed]
    exact (List.append_assoc _ _ _).symm
  · obtain ⟨world, all⟩ := shown (other, known) (others other known there apart)
    have here := (goes _ (List.mem_append_left _ (others other known there apart)) world).2
    exact List.mem_append_right _ (all _ here)
  · have allowed := (besides_printStatistics backend record.patchPath listing.world).printed line
    exact allowed ((Session.mem_printedOf_iff line _).2 told)

/-! ### The application of the youngest shelf -/

/-- The arguments with which the client is to apply a patch file. -/
def applyArguments (options : Options) (patchPath : Text) : List Text :=
  ("patch" : Text) :: patchPath :: if options.dryRun then ["--dry-run"] else []

/-- To apply the shelf, the client is called with this patch file and for nothing else: it is
tried in any case, and it comes to one call if the client can be called at all. -/
structure AppliesOnly (settings : Settings) (options : Options) (patchPath : Text)
    (machine : Machine) (trail : List Event) : Prop where
  tried : ∃ directory : Text, .activity (.logged ⟨.debug, WorkingCopyStore.logger, "Running " ++
    Text.joinWith " " (settings.program :: applyArguments options patchPath)
      ++ " in " ++ directory⟩) ∈ trail
  only : ∀ call ∈ Session.ranCalls trail,
    call.program = settings.program ∧ call.arguments = applyArguments options patchPath
  called : machine.Callable settings.program → ∃ call, Session.ranCalls trail = [call]

/-- A store does not notice the stream of the results but by what it reports. -/
theorem runBefore_askApply (stream : LineStream) (backend : Backend σ) (name root : Text)
    (keepLocal dryRun : Bool) (session : Session σ) :
    let applied := (backend.store.apply name root keepLocal dryRun).runBefore
      (Session.overheard (Report.audience stream) session.context) session.world
    (Session.askApply backend name root keepLocal dryRun).runBefore (Report.audience stream)
        session =
      ⟨applied.result, { session with world := applied.world },
        .asked (.apply name root keepLocal dryRun) ::
          applied.events.filterMap session.context.admit?⟩ := rfl

/-- A confirmation calls no program, whether or not it is taken. -/
theorem ranCalls_confirm (options : Options) (done name : Text) (audience : Audience Event)
    (session : Session σ) :
    Session.ranCalls ((confirm options done name).runBefore audience session).events = [] := by
  rw [confirm]
  split
  · rfl
  · rw [Session.print]
    cases heard : audience (.printed (done ++ " '" ++ name ++ "'")) with
    | none =>
        rw [Effect.runBefore_emit_of_taken heard]
        rfl
    | some fault =>
        rw [Effect.runBefore_emit_of_refused heard]
        rfl

/-- What a store begins an application with is carried by the command, if it is not followed by
other calls. -/
theorem carries_applyResolved (stream : LineStream) (backend : Backend σ) (root name : Text)
    (options : Options) (automatic : Bool) (alone : options.extraTargets = [])
    (session : Session σ) {work : List Activity}
    (begins : ∀ context, ∃ later,
      ((backend.store.apply name root options.keepLocal options.dryRun).runBefore
        (Session.overheard (Report.audience stream) context) session.world).events =
          work ++ later ∧ Activity.calls later = []) :
    Carries work ((applyResolved backend root options ⟨name, [], automatic⟩).runBefore
      (Report.audience stream) session).events := by
  have applies (context : Context) : Carries work
      ((Session.askApply backend name root options.keepLocal options.dryRun >>= fun _ =>
        confirm options "unshelved" name).runBefore (Report.audience stream)
          ⟨context, session.world⟩).events := by
    obtain ⟨later, parts, unran⟩ := begins context
    refine .followed ?_ fun _ _ => ranCalls_confirm _ _ _ _ _
    rw [runBefore_askApply, parts, List.filterMap_append]
    rw [← Session.ranCalls_admitted context] at unran
    exact ⟨[.asked _], context, later.filterMap context.admit?, rfl, rfl, unran⟩
  have traces (context : Context) : Carries work
      ((trace ("Unshelving " ++ name.quoted ++ " (" ++ dryRunText options) >>= fun _ =>
        Session.askApply backend name root options.keepLocal options.dryRun >>= fun _ =>
          confirm options "unshelved" name).runBefore (Report.audience stream)
            ⟨context, session.world⟩).events :=
    .behind_talks (.log _ _ _) (Report.takes_audience_of_lineless rfl) rfl applies
  have checked : ((Effect.ofChecked (Arguments.requireNone
      (([] : List Argument) ++ options.extraTargets.map .text)) : Operation σ Unit).run
        session).result = .ok () := by
    rw [alone]
    rfl
  refine .behind_reads (.ofChecked _) checked ?_
  split
  · exact .behind_talks .silence (Report.takes_audience_of_lineless rfl) rfl traces
  · exact traces session.context

/-- The records of a working copy are had without a call of a program, or a line. -/
theorem exists_run_inOrder {root : Text} {records : Shelves} {session : Session Machine}
    (listed : (((storeOf settings).list root).run session.world).result = .ok records) :
    ∃ events, (inOrder (backendOf settings) root).run session =
        ⟨.ok records.inOrder, session, events⟩ ∧
      Session.ranCalls events = [] ∧ events.filterMap Report.outLine? = [] := by
  have logs := WorkingCopyStore.onlyLogs_list (storeOf settings) root
  have asked : (Session.askList (backendOf settings) root).run session =
      ⟨.ok records, session, [.asked (.list root)] ++
        (((storeOf settings).list root).run session.world).events.filterMap
          session.context.admit?⟩ := by
    have run : (Session.askList (backendOf settings) root).run session =
        ⟨(((storeOf settings).list root).run session.world).result,
          ⟨session.context, (((storeOf settings).list root).run session.world).world⟩,
          [.asked (.list root)] ++ (((storeOf settings).list root).run
            session.world).events.filterMap session.context.admit?⟩ := rfl
    rw [run, listed, (logs session.world).1]
  have unran : Session.ranCalls ((((storeOf settings).list root).run
      session.world).events.filterMap session.context.admit?) = [] := by
    rw [Session.ranCalls_admitted, logs.calls_run]
  have lineless : ((((storeOf settings).list root).run session.world).events.filterMap
      session.context.admit?).filterMap Report.outLine? = [] := by
    refine List.filterMap_eq_nil_iff.2 fun event member => ?_
    obtain ⟨activity, inside, admitted⟩ := List.mem_filterMap.1 member
    obtain ⟨record, rfl⟩ := (logs session.world).2 activity inside
    obtain rfl := Option.some.inj admitted
    rfl
  rw [inOrder, Effect.run_bind_ok asked]
  refine ⟨_, rfl, ?_, ?_⟩
  · rw [Session.ranCalls_append, Session.ranCalls_append, unran]
    rfl
  · rw [List.filterMap_append, List.filterMap_append, lineless]
    rfl

/-- Without a name, the command comes to tell which shelf is the youngest, and calls no program
before that. -/
theorem exists_runBefore_unshelve (stream : LineStream) {root name : Text} {records : Shelves}
    {session : Session Machine} (adds : options.listOnly = false)
    (located : surroundings.root = .ok root)
    (listed : (((storeOf settings).list root).run session.world).result = .ok records)
    (last : Shelves.lastName? records.inOrder = some name) :
    ∃ early, Session.ranCalls early = [] ∧
      let told := (Session.print ("unshelving the youngest change, '" ++ name ++ "'") >>= fun _ =>
        applyResolved (backendOf settings) root options ⟨name, [], true⟩).runBefore
          (Report.audience stream) session
      (unshelve (backendOf settings) surroundings [] options).runBefore (Report.audience stream)
          session = ⟨told.result, told.world, early ++ told.events⟩ := by
  obtain ⟨events, ordered, unran, lineless⟩ := exists_run_inOrder listed
  have rooted : ((Effect.ofAccess surroundings.root : Operation Machine Text).run
      session).result = .ok root := by
    rw [located]
    rfl
  have listing : (Report.audience stream).Takes ((inOrder (backendOf settings) root).run
      session).events := by
    rw [ordered]
    exact Report.takes_audience_of_lineless lineless
  refine ⟨events ++ [.activity (.logged ⟨.debug, resolverLogger,
    "Auto-selected youngest shelf " ++ name.quoted⟩)], ?_, ?_⟩
  · rw [Session.ranCalls_append, unran]
    rfl
  · rw [unshelve_of_applies adds, (Effect.Reads.ofAccess _).runBefore_bind_of_ok rooted]
    simp only [resolve, youngest, List.isEmpty_nil, if_true, Effect.bind_assoc]
    rw [Effect.runBefore_bind_of_takes listing, ordered]
    simp only [Effect.chain, last, Effect.pure_bind, if_true]
    rw [Effect.runBefore_bind_of_takes (Report.takes_audience_of_lineless rfl)]
    simp only [Effect.chain, Session.log, Effect.run_emit, List.append_assoc]

/-- Where the notice is taken, the command carries the call of the client for the youngest
shelf. -/
theorem carries_unshelve {stream : LineStream} {root name : Text} {records : Shelves}
    {session : Session Machine} {found patchPath : Path} (adds : options.listOnly = false)
    (alone : options.extraTargets = []) (located : surroundings.root = .ok root)
    (listed : (((storeOf settings).list root).run session.world).result = .ok records)
    (last : Shelves.lastName? records.inOrder = some name)
    (rooted : ((findRoot root).run session.world).result = .ok found)
    (looked : ((WorkingCopyStore.existingPatch ((storeOf settings).shelvesPath found) name).run
      session.world).result = .ok patchPath)
    (takes : stream ("unshelving the youngest change, '" ++ name ++ "'") = none) :
    Carries (((storeOf settings).runClient found "patch"
        (patchArguments patchPath options.dryRun)).run session.world).events
      ((unshelve (backendOf settings) surroundings [] options).runBefore (Report.audience stream)
        session).events := by
  obtain ⟨early, unran, run⟩ := exists_runBefore_unshelve stream adds located listed last
  rw [run]
  refine .prepend unran (.behind_talks (.print _) ?_ rfl fun context => ?_)
  · rw [Report.takes_audience_iff]
    exact List.forall_mem_singleton.2 takes
  · refine carries_applyResolved stream (backendOf settings) root name options true alone _
      fun context => ?_
    exact WorkingCopyStore.exists_events_apply_of_found rooted looked
      (Report.overheard_audience context)

/-- The call of the client for a listed file makes the trail one of an application of it. -/
theorem appliesOnly_of_carries {root key : Text} {record : ShelfRecord} {machine : Machine}
    {found place : Location} {name : FileName} {trail : List Event} (sound : machine.Sound)
    (listedAt : ListedAt (storeOf settings) machine root found place name key record)
    (isFile : machine.tree.isFile machine.directory
      (((storeOf settings).shelvesPath found.toPath).child key) = .ok true)
    (carries : Carries (((storeOf settings).runClient found.toPath "patch" (patchArguments
      (((storeOf settings).shelvesPath found.toPath).child key) options.dryRun)).run
        machine).events trail) :
    AppliesOnly settings options record.patchPath machine trail := by
  have shown : ("patch" : Text) :: patchArguments
      (((storeOf settings).shelvesPath found.toPath).child key) options.dryRun =
        applyArguments options record.patchPath := by
    rw [patchArguments, applyArguments, listedAt.recorded.patchPath]
  refine ⟨⟨found.toPath.toText, ?_⟩, fun call made => ?_, fun callable => ?_⟩
  · rw [← shown]
    exact carries.logged WorkingCopyStore.logged_runClient
  · rw [carries.ranCalls_eq] at made
    obtain rfl := WorkingCopyStore.eq_of_mem_calls_runClient made
    exact ⟨rfl, shown⟩
  · have absolute := WorkingCopyStore.isAbsolute_shelvesPath (storeOf settings) found
    have below : (((storeOf settings).shelvesPath found.toPath).child key).isAbsolute = true :=
      absolute
    obtain ⟨location, content, moment, located⟩ := FileTree.exists_of_isFile isFile
    rw [FileTree.locate_base machine.tree machine.directory .target below] at located
    have kept : KeptPatch (storeOf settings) _ moment machine :=
      ⟨sound, ⟨location, content, located⟩, callable⟩
    rw [carries.ranCalls_eq,
      WorkingCopyStore.run_runClient (kept.canRun below listedAt.rooted)]
    exact ⟨_, rfl⟩

/-- Where the patches of a working copy are regular files, and there is one, the shelf that is
applied without a name is the youngest: modified last, and behind all that were modified at the
same moment by the code points of its key.  It is the one that a listing prints last, if the
stream for the results takes the listing.  Its patch file is the one that the client is called
with, whatever it is called, if the stream takes the line that tells its name. -/
theorem unshelves_lastListed (settings : Settings) (surroundings : Surroundings)
    (options : Options) (adds : options.listOnly = false) (alone : options.extraTargets = [])
    (stream : LineStream) (session : Session Machine) (sound : session.world.Sound) {root : Text}
    {records : Shelves} (located : surroundings.root = .ok root)
    (listed : (((storeOf settings).list root).run session.world).result = .ok records)
    (filled : records.pairs ≠ [])
    (regular : ∀ found place, ((findRoot root).run session.world).result = .ok found →
      session.world.tree.Leads ((storeOf settings).shelvesPath found) place →
        OnlyRegularPatches session.world.tree place) :
    ∃ key record, records.get? key = some record ∧
      (∀ other shown, records.get? other = some shown → other ≠ key →
        Shelves.rank (other, shown) < Shelves.rank (key, record)) ∧
      (settings.diffstatProgram.holds '\x00' = false → ∀ others : Options,
        let listing := shelves (backendOf settings) surroundings [] others
        stream.Takes ((listing.run session).events.filterMap Report.outLine?) →
          PrintsLast (backendOf settings) surroundings.now records key record
            (listing.runBefore (Report.audience stream) session)) ∧
      (stream ("unshelving the youngest change, '" ++ Shelf.nameOf key ++ "'") = none →
        AppliesOnly settings options record.patchPath session.world
          ((unshelve (backendOf settings) surroundings [] options).runBefore
            (Report.audience stream) session).events) := by
  obtain ⟨before, key, record, parts, known, others⟩ := Shelves.exists_last_inOrder filled
  have last : Shelves.lastName? records.inOrder = some (Shelf.nameOf key) := by
    simp [Shelves.lastName?, parts]
  refine ⟨key, record, known, fun other shown there apart => (others other shown there apart).2,
    fun summarizable options => ?_, fun takes => ?_⟩
  · intro listing takes
    rw [Report.runBefore_audience takes]
    simp only [listing]
    rw [run_shelves located]
    exact printsLast_of_inOrder listed (summarized_backendOf summarizable listed) parts
      (fun other shown there apart => (others other shown there apart).1) surroundings.now
  · obtain ⟨found, place, name, listedAt⟩ :=
      WorkingCopyStore.exists_listedAt sound listed known
    have ends := listedAt.recorded.ends
    rw [listedAt.spelled] at ends
    obtain ⟨content, modified, stands⟩ :=
      regular _ place listedAt.rooted listedAt.leads name listedAt.member ends
    have isFile := listedAt.isFile stands
    exact appliesOnly_of_carries sound listedAt isFile
      (carries_unshelve adds alone located listed last listedAt.rooted
        (listedAt.existingPatch isFile) takes)

/-- If the stream refuses the line that tells the name, the command ends with that, and no program
is called. -/
theorem unshelves_nothing_of_refused {stream : LineStream} {root name : Text} {records : Shelves}
    {session : Session Machine} {fault : Fault} (adds : options.listOnly = false)
    (located : surroundings.root = .ok root)
    (listed : (((storeOf settings).list root).run session.world).result = .ok records)
    (last : Shelves.lastName? records.inOrder = some name)
    (refuses : stream ("unshelving the youngest change, '" ++ name ++ "'") = some fault) :
    let outcome := (unshelve (backendOf settings) surroundings [] options).runBefore
      (Report.audience stream) session
    outcome.result = .error (.fault fault) ∧ Session.ranCalls outcome.events = [] := by
  intro outcome
  obtain ⟨early, unran, run⟩ := exists_runBefore_unshelve stream adds located listed last
  have told : (Session.print ("unshelving the youngest change, '" ++ name ++ "'") :
      Operation Machine Unit).runBefore (Report.audience stream) session =
        ⟨.error (.fault fault), session, []⟩ := by
    have heard : Report.audience stream
        (.printed ("unshelving the youngest change, '" ++ name ++ "'")) = some fault := refuses
    exact Effect.runBefore_emit_of_refused heard session
  simp only [outcome]
  rw [run, Effect.runBefore_bind, told]
  refine ⟨rfl, ?_⟩
  simp only [Effect.chain, List.append_nil]
  exact unran

/-! ### Names that look odd -/

/-- The names of three shelves that were modified at the same moment.  The first key is `..patch`,
the second one has the suffix twice, and the last one starts with a byte that stands for no
character. -/
def oddNames : List Text :=
  [".", "a.patch", [.raw (Fin.last 127)]]

/-- A machine that works in `/wc`, with these shelves. -/
def oddMachine : Machine :=
  workingMachine (("/wc/.svn/shelves", .directory) :: oddNames.map fun name =>
    ("/wc/.svn/shelves/" ++ Shelf.keyOf name, .file (Utf8.encode "Index: a\n") .epoch)) id

/-- The record that a listing has of such a shelf. -/
def oddRecord (name : Text) (named : name.isBlank = false) : ShelfRecord :=
  ⟨name, "/wc/.svn/shelves/" ++ Shelf.keyOf name, .epoch, 9, [], named⟩

/-- The records of the three shelves, as the directory is read. -/
def oddRecords : Shelves :=
  .ofList [(Shelf.keyOf [.raw (Fin.last 127)], oddRecord [.raw (Fin.last 127)] (by decide)),
    (Shelf.keyOf "a.patch", oddRecord "a.patch" (by decide)),
    (Shelf.keyOf ".", oddRecord "." (by decide))]

theorem located_oddMachine : (surroundingsOn oddMachine).root = .ok "/wc" := by
  decide +kernel

theorem listed_oddMachine :
    (((storeOf usualSettings).list "/wc").run oddMachine).result = .ok oddRecords := by
  decide +kernel

/-- Of the three shelves, the one without a readable name is shown last and applied, if every line
is taken. -/
theorem unshelves_unreadable :
    PrintsLast (backendOf usualSettings) .epoch oddRecords (Shelf.keyOf [.raw 127])
        (oddRecord [.raw 127] (by decide))
        ((shelves (backendOf usualSettings) (surroundingsOn oddMachine) [] {}).runBefore
          (Report.audience .willing) (sessionOn oddMachine)) ∧
      AppliesOnly usualSettings {} ("/wc/.svn/shelves/" ++ Shelf.keyOf [.raw 127]) oddMachine
        ((unshelve (backendOf usualSettings) (surroundingsOn oddMachine) [] {}).runBefore
          (Report.audience .willing) (sessionOn oddMachine)).events := by
  have sound : oddMachine.Sound := ⟨by decide +kernel, fun _ => by decide +kernel⟩
  have leads : oddMachine.tree.Leads WorkingCopyStore.plainDirectory
      (placeOf "/wc/.svn/shelves") := by
    rw [FileTree.Leads]
    decide +kernel
  have files : ∀ name ∈ oddMachine.tree.names (placeOf "/wc/.svn/shelves"),
      oddMachine.tree.get? (name :: placeOf "/wc/.svn/shelves") =
        some (.file (Utf8.encode "Index: a\n") .epoch) := by
    decide +kernel
  have rooted : ((findRoot "/wc").run oddMachine).result = .ok ⟨.root, ["wc"]⟩ := by
    decide +kernel
  obtain ⟨key, record, known, highest, shows, applies⟩ := unshelves_lastListed usualSettings
    (surroundingsOn oddMachine) {} rfl rfl .willing (sessionOn oddMachine) sound
    located_oddMachine listed_oddMachine (List.cons_ne_nil _ _)
    fun found place reached there name member _ => by
      obtain rfl := Except.ok.inj (rooted.symm.trans reached)
      obtain rfl := leads.unique there
      exact ⟨_, _, files name member⟩
  have unread : oddRecords.get? (Shelf.keyOf [.raw 127]) =
      some (oddRecord [.raw 127] (by decide)) := by
    decide +kernel
  -- A stray byte counts as a code point above those of the other names, so this key is last.
  have noneBehind : ∀ entry ∈ oddRecords.pairs,
      Shelves.notAfter entry (Shelf.keyOf [.raw 127], oddRecord [.raw 127] (by decide)) := by
    decide +kernel
  obtain rfl : key = Shelf.keyOf [.raw 127] := by
    refine Decidable.byContradiction fun apart => ?_
    have ahead := noneBehind _ (Dictionary.mem_of_get? known)
    have behind := highest _ _ unread (Ne.symm apart)
    exact absurd behind (not_lt.2 ((Shelves.notAfter_iff _ _).1 ahead))
  obtain rfl := Option.some.inj (unread.symm.trans known)
  exact ⟨shows (by decide) {} fun _ _ => rfl, applies rfl⟩

/-- A stream of valid UTF-8 does not take the line that tells its name, so it is not applied. -/
example : ∃ fault,
    let outcome := (unshelve (backendOf usualSettings) (surroundingsOn oddMachine) [] {}).runBefore
      (Report.audience .strict) (sessionOn oddMachine)
    outcome.result = .error (.fault fault) ∧ Session.ranCalls outcome.events = [] := by
  let name : Text := [.raw 127]
  have last : Shelves.lastName? oddRecords.inOrder = some name := by cbv
  have untaken : LineStream.strict ("unshelving the youngest change, '" ++ name ++ "'") ≠ none :=
    fun taken => absurd ((LineStream.strict_eq_none_iff _).1 taken) (by decide)
  obtain ⟨fault, refuses⟩ := Option.ne_none_iff_exists'.1 untaken
  exact ⟨fault, unshelves_nothing_of_refused rfl located_oddMachine listed_oddMachine last
    refuses⟩

end Commands

end PatchShelf
