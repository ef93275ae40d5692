/-
Module: PatchShelf.Proofs.Commands.Quiet
Purpose: A quiet command does what the same command does aloud.
Main exports:
  Options.withQuiet, Commands.QuietLine, Commands.LeavesAlike, Commands.concur_shelve,
  Commands.concur_unshelve, Commands.quiet_only_silences
-/
import PatchShelf.Proofs.Commands.FoundAgain
import PatchShelf.Proofs.Commands.QuietListing
import PatchShelf.Proofs.LineStream

/-!
The quiet flag is read where a command prints, where it decides whether progress is reported,
and where it decides whether a listing has statistics.  The first two are nothing to the
store, so quiet and loud runs go side by side.  A loud listing goes on to summaries of the
patches, behind all that it asks the store for.
-/

namespace PatchShelf

/-- The same options with the quiet flag set or cleared. -/
def Options.withQuiet (options : Options) (quiet : Bool) : Options :=
  { options with quiet := quiet }

namespace Commands

open CommandLine (backendOf)
open Session (Alike Concur Mute Operation Says Shows askedOf)

variable {σ : Type} {backend : Backend σ} {surroundings : Surroundings}
  {arguments : List Argument} {options : Options}

/-! ### Commands that do not list -/

/-- The confirmation is a line of one side only, and asks for nothing. -/
theorem concur_confirm (options : Options) (done name : Text) :
    Concur (confirm (options.withQuiet true) done name : Operation σ Unit)
      (confirm (options.withQuiet false) done name) :=
  .pure_print _

/-- To remove a shelf asks for the same on both sides. -/
theorem concur_removeShelf (backend : Backend σ) (root : Text) (options : Options)
    (name : Text) (rest : List Argument) :
    Concur (removeShelf backend root (options.withQuiet true) name rest)
      (removeShelf backend root (options.withQuiet false) name rest) := by
  refine .bind (.ofChecked _) fun _ => .bind (.log _ _ _) fun _ => ?_
  exact .bind (.askDelete _ _ _ _) fun _ => concur_confirm options _ name

/-- To make one does, too. -/
theorem concur_createShelf (backend : Backend σ) (root : Text) (options : Options)
    (name : Text) (rest : List Argument) :
    Concur (createShelf backend root (options.withQuiet true) name rest)
      (createShelf backend root (options.withQuiet false) name rest) := by
  refine .bind (.ofChecked _) fun selection => ?_
  refine .bind (.forEach fun target => .bind (.log _ _ _) fun _ => .emit _) fun _ => ?_
  by_cases none : selection.targets = []
  · simp only [none, if_true]
    exact .fail _
  · simp only [none, if_false]
    refine .bind (.ofChecked _) fun _ => .bind (.ofChecked _) fun _ => ?_
    refine .bind (.log _ _ _) fun _ => ?_
    exact .bind (.withLogMessage _ (.askCreate _ _)) fun _ => concur_confirm options _ name

/-- The name is found in the same way. -/
theorem concur_resolve (backend : Backend σ) (arguments : List Argument) (root : Text) :
    Concur (resolve backend arguments root) (resolve backend arguments root) := by
  rw [resolve]
  split
  · refine .bind (.bind (concur_inOrder _ _) fun entries => ?_) fun name => ?_
    · split
      · exact .fail _
      · exact .pure _
    · exact .bind (.log _ _ _) fun _ => .pure _
  · exact .bind (.ofChecked _) fun _ => .pure _

/-- The quiet and the loud `shelve` run side by side, unless they list. -/
theorem concur_shelve (backend : Backend σ) (surroundings : Surroundings)
    (arguments : List Argument) (adds : options.listOnly = false) :
    Concur (shelve backend surroundings arguments (options.withQuiet true))
      (shelve backend surroundings arguments (options.withQuiet false)) := by
  refine .silence_bind (.bind (.ofAccess _) fun root => ?_)
  have adds (quiet : Bool) : (options.withQuiet quiet).listOnly = false := adds
  simp only [adds, Bool.false_eq_true, if_false]
  refine .bind (.ofChecked _) fun (name, rest) => ?_
  by_cases removes : options.remove = true
  · have removes (quiet : Bool) : (options.withQuiet quiet).remove = true := removes
    simp only [removes, if_true]
    exact concur_removeShelf backend root options name rest
  · have removes (quiet : Bool) : ¬ (options.withQuiet quiet).remove = true := removes
    simp only [removes]
    exact concur_createShelf backend root options name rest

/-- What is left to do once it is settled which shelf to apply. -/
def applyResolved (backend : Backend σ) (root : Text) (options : Options)
    (resolved : Resolved) : Operation σ Unit := do
  Effect.ofChecked (Arguments.requireNone (resolved.rest ++ options.extraTargets.map .text))
  if options.quiet then Session.silence else pure ()
  trace ("Unshelving " ++ resolved.name.quoted ++ " (" ++ dryRunText options)
  Session.askApply backend resolved.name root options.keepLocal options.dryRun
  confirm options "unshelved" resolved.name

/-- To apply a shelf, a command settles which, tells if it was picked by age, and goes on. -/
theorem unshelve_of_applies (adds : options.listOnly = false) :
    unshelve backend surroundings arguments options =
      Effect.ofAccess surroundings.root >>= fun root =>
        resolve backend arguments root >>= fun resolved =>
          if resolved.automatic then
            Session.print ("unshelving the youngest change, '" ++ resolved.name ++ "'") >>=
              fun _ => applyResolved backend root options resolved
          else applyResolved backend root options resolved := by
  rw [unshelve]
  simp only [adds, Bool.false_eq_true, if_false]
  rfl

/-- To apply a shelf asks for the same on both sides. -/
theorem concur_applyResolved (backend : Backend σ) (root : Text) (options : Options)
    (resolved : Resolved) :
    Concur (applyResolved backend root (options.withQuiet true) resolved)
      (applyResolved backend root (options.withQuiet false) resolved) := by
  refine .bind (.ofChecked _) fun _ => .silence_bind ?_
  refine .bind (.log _ _ _) fun _ => .bind (.askApply _ _ _ _ _) fun _ => ?_
  exact concur_confirm options _ resolved.name

/-- The quiet and the loud `unshelve` run side by side, unless they list. -/
theorem concur_unshelve (backend : Backend σ) (surroundings : Surroundings)
    (arguments : List Argument) (adds : options.listOnly = false) :
    Concur (unshelve backend surroundings arguments (options.withQuiet true))
      (unshelve backend surroundings arguments (options.withQuiet false)) := by
  have adds (quiet : Bool) : (options.withQuiet quiet).listOnly = false := adds
  rw [unshelve_of_applies (adds true), unshelve_of_applies (adds false)]
  refine .bind (.ofAccess _) fun root => .bind (concur_resolve _ _ _) fun resolved => ?_
  split
  · exact .bind (.emit _) fun _ => concur_applyResolved backend root options resolved
  · exact concur_applyResolved backend root options resolved

/-! ### What a quiet command shows -/

/-- Quiet, there is no confirmation. -/
theorem mute_confirm (options : Options) (done name : Text) :
    Mute (confirm (options.withQuiet true) done name : Operation σ Unit) :=
  .ofReads (.pure ())

/-- Quiet, removing a shelf is mute. -/
theorem mute_removeShelf (backend : Backend σ) (root : Text) (options : Options)
    (name : Text) (rest : List Argument) :
    Mute (removeShelf backend root (options.withQuiet true) name rest) := by
  refine .bind (.ofReads (.ofChecked _)) fun _ => .bind (.log _ _ _) fun _ => ?_
  exact .bind (.askDelete _ _ _ _) fun _ => mute_confirm options _ name

/-- Quiet, making a shelf is mute. -/
theorem mute_createShelf (backend : Backend σ) (root : Text) (options : Options)
    (name : Text) (rest : List Argument) :
    Mute (createShelf backend root (options.withQuiet true) name rest) := by
  refine .bind (.ofReads (.ofChecked _)) fun selection => ?_
  have warns (target : Text) : Mute (warnSkipped target : Operation σ Unit) :=
    .bind (.log _ _ _) fun _ => .emit trivial
  refine .bind (.forEach warns) fun _ => ?_
  split
  · exact .ofReads (.fail _)
  · refine .bind (.ofReads (.ofChecked _)) fun _ => .bind (.ofReads (.ofChecked _)) fun _ => ?_
    refine .bind (.log _ _ _) fun _ => ?_
    exact .bind (.withLogMessage _ (.askCreate _ _)) fun _ => mute_confirm options _ name

/-- Quiet, removing or making a shelf, as the options ask, is mute. -/
theorem mute_shelveOne (backend : Backend σ) (root : Text) (options : Options)
    (arguments : List Argument) :
    Mute (Effect.ofChecked (Arguments.takeName arguments) >>= fun taken =>
      if options.remove then removeShelf backend root (options.withQuiet true) taken.1 taken.2
      else createShelf backend root (options.withQuiet true) taken.1 taken.2) := by
  refine .bind (.ofReads (.ofChecked _)) fun taken => ?_
  split
  · exact mute_removeShelf backend root options taken.1 taken.2
  · exact mute_createShelf backend root options taken.1 taken.2

/-- Quiet, `shelve` shows nothing but logs and warnings. -/
theorem says_shelve (backend : Backend σ) (surroundings : Surroundings)
    (arguments : List Argument) (adds : options.listOnly = false) (session : Session σ) :
    Says (Shows fun _ => False)
      (shelve backend surroundings arguments (options.withQuiet true)) session := by
  refine Mute.silence_bind (.bind (.ofReads (.ofAccess _)) fun root => ?_) session
  have adds : (options.withQuiet true).listOnly = false := adds
  simp only [adds, Bool.false_eq_true, if_false]
  exact mute_shelveOne backend root options arguments

/-- To apply a shelf shows nothing but those, either. -/
theorem says_applyResolved (backend : Backend σ) (root : Text) (options : Options)
    (resolved : Resolved) (session : Session σ) :
    Says (Shows fun _ => False) (applyResolved backend root (options.withQuiet true) resolved)
      session := by
  refine .bind_reads (.ofChecked _) fun _ _ => Mute.silence_bind ?_ session
  refine .bind (.log _ _ _) fun _ => .bind (.askApply _ _ _ _ _) fun _ => ?_
  exact mute_confirm options _ resolved.name

/-- To look for its name says nothing, where listing the store only looks. -/
theorem says_resolve (lists : ListsOnly backend) (arguments : List Argument) (root : Text)
    (session : Session σ) :
    Says (Shows fun _ => False) (resolve backend arguments root) session := by
  rw [resolve]
  split
  · refine .bind (.bind (says_inOrder lists root session) fun entries _ => ?_) fun name _ => ?_
    · split
      · exact .ofReads (.fail _)
      · exact .ofReads (.pure _)
    · exact .bind (.emit trivial) fun _ _ => .ofReads (.pure _)
  · exact .bind_reads (.ofChecked _) fun _ _ => .ofReads (.pure _)

/-- A shelf is picked by age if no argument names one. -/
theorem exists_of_resolve_automatic {root : Text} {session : Session σ} {resolved : Resolved}
    (settled : ((resolve backend arguments root).run session).result = .ok resolved)
    (automatic : resolved.automatic = true) :
    arguments = [] ∧ ∃ records,
      ((backend.store.list root).run session.world).result = .ok records ∧
        Shelves.lastName? records.inOrder = some resolved.name := by
  rw [resolve] at settled
  split at settled
  · rename_i empty
    obtain ⟨name, picked, logs, -⟩ := Effect.exists_of_run_bind_ok settled
    obtain ⟨entries, listed, chosen, -⟩ := Effect.exists_of_run_bind_ok picked
    obtain ⟨records, asked, rfl⟩ := exists_of_inOrder_ok listed
    obtain rfl := Except.ok.inj logs
    refine ⟨List.isEmpty_iff.1 empty, records, asked, ?_⟩
    split at chosen
    · cases chosen
    · rename_i last
      obtain rfl := Except.ok.inj chosen
      exact last
  · obtain ⟨taken, -, given⟩ := (Effect.Reads.ofChecked _).exists_of_bind_ok settled
    obtain rfl := Except.ok.inj given
    cases automatic

/-- The lines that a quiet command prints: those of a listing that was asked for, and the name
of the shelf that it picks by age. -/
inductive QuietLine (backend : Backend σ) (command : Command) (surroundings : Surroundings)
    (arguments : List Argument) (options : Options) (world : σ) : Text → Prop
  | entry {root key : Text} {records : Shelves} {record : ShelfRecord}
      (lists : options.listOnly = true) (located : surroundings.root = .ok root)
      (listed : ((backend.store.list root).run world).result = .ok records)
      (known : records.get? key = some record) :
      QuietLine backend command surroundings arguments options world
        (Listing.entryText key record surroundings.now)
  | picked {root name : Text} {records : Shelves} (applies : command = .unshelve)
      (adds : options.listOnly = false) (unnamed : arguments = [])
      (located : surroundings.root = .ok root)
      (listed : ((backend.store.list root).run world).result = .ok records)
      (last : Shelves.lastName? records.inOrder = some name) :
      QuietLine backend command surroundings arguments options world
        ("unshelving the youngest change, '" ++ name ++ "'")

/-- Quiet, `unshelve` shows only the line about the name that it picked. -/
theorem says_unshelve (lists : ListsOnly backend) (adds : options.listOnly = false)
    (session : Session σ) :
    Says (Shows (QuietLine backend .unshelve surroundings arguments options session.world))
      (unshelve backend surroundings arguments (options.withQuiet true)) session := by
  have silent {event : Event} (unseen : Shows (fun _ => False) event) :
      Shows (QuietLine backend .unshelve surroundings arguments options session.world) event :=
    unseen.weaken fun _ => False.elim
  have applies {root : Text} {resolved : Resolved} {session : Session σ} :=
    says_applyResolved backend root options resolved session
  have adds' : (options.withQuiet true).listOnly = false := adds
  rw [unshelve_of_applies adds']
  refine .bind_reads (.ofAccess _) fun root located => ?_
  rw [Effect.run_ofAccess] at located
  refine .bind ((says_resolve lists _ _ _).weaken fun _ => silent) fun resolved settled => ?_
  split
  · rename_i automatic
    obtain ⟨unnamed, records, listed, last⟩ := exists_of_resolve_automatic settled automatic
    have line : QuietLine backend .unshelve surroundings arguments options session.world
        ("unshelving the youngest change, '" ++ resolved.name ++ "'") :=
      .picked rfl adds unnamed (mapError_eq_ok_iff.1 located) listed last
    exact .bind (.emit line) fun _ _ => applies.weaken fun _ => silent
  · exact applies.weaken fun _ => silent

/-! ### Commands that list -/

/-- With the option to list, `unshelve` is a listing. -/
theorem unshelve_of_lists (lists : options.listOnly = true) :
    unshelve backend surroundings arguments options =
      listing backend surroundings arguments !options.quiet := by
  rw [unshelve, listing, entriesOf]
  simp only [lists, if_true, Effect.bind_assoc]
  rfl

/-- With the option to list, `shelve` is a listing, for which quiet turns the notices off first. -/
theorem shelve_of_lists (lists : options.listOnly = true) :
    shelve backend surroundings arguments options =
      if options.quiet then
        Session.silence >>= fun _ => listing backend surroundings arguments false
      else listing backend surroundings arguments true := by
  rw [shelve, listing, listing, entriesOf]
  simp only [lists, if_true, Effect.bind_assoc]
  cases options.quiet with
  | true =>
      simp only [if_true]
      rfl
  | false =>
      simp only [Bool.false_eq_true, if_false]
      rfl

/-- A quiet listing prints the records of the store. -/
theorem says_quietListing (lists : ListsOnly backend) (only : options.listOnly = true)
    (command : Command) (session : Session σ) :
    Says (Shows (QuietLine backend command surroundings arguments options session.world))
      (listing backend surroundings arguments false) session := by
  have silent {event : Event} (unseen : Shows (fun _ => False) event) :
      Shows (QuietLine backend command surroundings arguments options session.world) event :=
    unseen.weaken fun _ => False.elim
  refine .bind ((says_entriesOf lists session).weaken fun _ => silent) fun entries ended => ?_
  obtain ⟨root, records, located, listed, rfl⟩ := exists_of_entriesOf_ok ended
  intro event member
  rw [run_printEntries] at member
  obtain ⟨⟨key, record⟩, inside, rfl⟩ := List.mem_map.1 member
  exact .entry only located listed ((records.mem_inOrder_iff key record).1 inside)

/-- A command that lists is a listing, from a session that is alike. -/
theorem exists_listing_of_lists (backend : Backend σ) (surroundings : Surroundings)
    (arguments : List Argument) {command : Command} (other : command ≠ .shelves)
    (only : options.listOnly = true) (session : Session σ) :
    ∃ left, Alike left session ∧
      (command.run backend surroundings arguments (options.withQuiet true)).run session =
        (listing backend surroundings arguments false).run left ∧
      (command.run backend surroundings arguments (options.withQuiet false)).run session =
        (listing backend surroundings arguments true).run session := by
  have only (quiet : Bool) : (options.withQuiet quiet).listOnly = true := only
  cases command with
  | shelves => exact absurd rfl other
  | unshelve =>
      refine ⟨session, .refl session, ?_, ?_⟩
      · rw [Command.run, unshelve_of_lists (only true)]
        rfl
      · rw [Command.run, unshelve_of_lists (only false)]
        rfl
  | shelve =>
      refine ⟨⟨{ session.context with notify := false }, session.world⟩, ⟨rfl, rfl⟩, ?_, ?_⟩
      · rw [Command.run, shelve_of_lists (only true)]
        have silenced : (Session.silence : Operation σ Unit).run session =
            ⟨.ok (), ⟨{ session.context with notify := false }, session.world⟩, []⟩ := rfl
        have quiet : (options.withQuiet true).quiet = true := rfl
        rw [if_pos quiet, Effect.run_bind_ok silenced]
        rfl
      · rw [Command.run, shelve_of_lists (only false)]
        rfl

/-! ### Quiet and loud -/

/-- The runs of a command ask the store for the same, and leave the same log message and the
same contents of the store. -/
structure LeavesAlike {κ : Type} (contents : σ → κ)
    (quiet loud : Outcome Event (Session σ) Unit) : Prop where
  asked : askedOf quiet.events = askedOf loud.events
  logMessage : quiet.world.context.logMessage = loud.world.context.logMessage
  contents : contents quiet.world.world = contents loud.world.world

/-- Runs side by side leave the store alike. -/
theorem LeavesAlike.of_sideBySide {κ : Type} {contents : σ → κ}
    {quiet loud : Outcome Event (Session σ) Unit} (same : Session.SideBySide quiet loud) :
    LeavesAlike contents quiet loud :=
  ⟨same.asked, same.alike.logMessage, congrArg contents same.alike.world⟩

/-- A command that does not come to the summaries runs side by side with itself. -/
theorem sideBySide_of_unsummarized {command : Command}
    (aside : command = .shelves ∨ options.listOnly = false) (session : Session σ) :
    Session.SideBySide
      ((command.run backend surroundings arguments (options.withQuiet true)).run session)
      ((command.run backend surroundings arguments (options.withQuiet false)).run session) := by
  cases command with
  | shelves => exact ⟨rfl, .refl _, rfl⟩
  | shelve =>
      have adds : options.listOnly = false := aside.resolve_left nofun
      exact concur_shelve backend surroundings arguments adds _ _ (.refl session)
  | unshelve =>
      have adds : options.listOnly = false := aside.resolve_left nofun
      exact concur_unshelve backend surroundings arguments adds _ _ (.refl session)

/-- Quiet, neither command shows more than the quiet line. -/
theorem says_quietRun (lists : ListsOnly backend) {command : Command}
    (other : command ≠ .shelves) (session : Session σ) :
    Says (Shows (QuietLine backend command surroundings arguments options session.world))
      (command.run backend surroundings arguments (options.withQuiet true)) session := by
  by_cases only : options.listOnly = true
  · obtain ⟨left, alike, quiet, -⟩ :=
      exists_listing_of_lists backend surroundings arguments other only session
    intro event member
    rw [quiet] at member
    rw [← alike.world]
    exact says_quietListing lists only command left event member
  · have adds : options.listOnly = false := by simpa using only
    cases command with
    | shelves => exact absurd rfl other
    | unshelve => exact says_unshelve lists adds session
    | shelve =>
        exact (says_shelve backend surroundings arguments adds session).weaken fun event unseen =>
          unseen.weaken fun _ => False.elim

/-- If a loud listing keeps the contents of the store, the runs of any command leave alike. -/
theorem leavesAlike_run {κ : Type} {contents : σ → κ} (lists : ListsOnly backend)
    (command : Command) (session : Session σ)
    (keeps : command ≠ .shelves → options.listOnly = true →
      contents ((listing backend surroundings arguments true).run session).world.world =
        contents session.world) :
    LeavesAlike contents
      ((command.run backend surroundings arguments (options.withQuiet true)).run session)
      ((command.run backend surroundings arguments (options.withQuiet false)).run session) := by
  by_cases aside : command = .shelves ∨ options.listOnly = false
  · exact .of_sideBySide (sideBySide_of_unsummarized aside session)
  · obtain ⟨other, only⟩ := not_or.1 aside
    have only : options.listOnly = true := by simpa using only
    obtain ⟨left, alike, quiet, loud⟩ :=
      exists_listing_of_lists backend surroundings arguments other only session
    obtain ⟨asked, logMessage⟩ := sameAsking_listing backend surroundings arguments alike
    rw [quiet, loud]
    refine ⟨asked, logMessage, ?_⟩
    rw [keeps other only, world_quietListing lists, alike.world]

/-- The runs of a command end as its listings do, if it comes to these. -/
theorem endsBeside_run {hinders : Prop} {reason : Stop} {command : Command}
    (session : Session σ)
    (listings : command ≠ .shelves → options.listOnly = true → ∀ left, Alike left session →
      EndsBeside hinders reason ((listing backend surroundings arguments false).run left)
        ((listing backend surroundings arguments true).run session)) :
    EndsBeside (command ≠ .shelves ∧ options.listOnly = true ∧ hinders) reason
      ((command.run backend surroundings arguments (options.withQuiet true)).run session)
      ((command.run backend surroundings arguments (options.withQuiet false)).run session) := by
  by_cases aside : command = .shelves ∨ options.listOnly = false
  · refine ⟨fun _ => (sideBySide_of_unsummarized aside session).result,
      fun ⟨other, only, _⟩ => ?_⟩
    rcases aside with rfl | adds
    · exact absurd rfl other
    · exact absurd (only.symm.trans adds) nofun
  · obtain ⟨other, only⟩ := not_or.1 aside
    have only : options.listOnly = true := by simpa using only
    obtain ⟨left, alike, quiet, loud⟩ :=
      exists_listing_of_lists backend surroundings arguments other only session
    have ends := listings other only left alike
    rw [quiet, loud]
    exact ⟨fun none => ends.alike fun holds => none ⟨other, only, holds⟩,
      fun holds => ends.apart holds.2.2⟩

/-- In a working copy, where every line is taken: the runs leave alike, and end alike but for one
case, that the program which summarizes patches in a loud listing has a name that no call can
hold, and there is a patch to summarize. -/
theorem silences_backendOf (command : Command) (surroundings : Surroundings)
    (arguments : List Argument) (options : Options) (settings : Settings)
    (session : Session Machine) :
    let backend := backendOf settings
    let quiet := (command.run backend surroundings arguments (options.withQuiet true)).run session
    let loud := (command.run backend surroundings arguments (options.withQuiet false)).run session
    (options.listOnly = true → ∀ call ∈ Session.ranCalls loud.events, call.left = call.found) →
      LeavesAlike Machine.tree quiet loud ∧
        EndsBeside (command ≠ .shelves ∧ options.listOnly = true ∧
          settings.diffstatProgram.holds '\x00' = true) (.fault .embeddedNull) quiet loud ∧
        (command ≠ .shelves → ∀ event ∈ quiet.events,
          Shows (QuietLine backend command surroundings arguments options session.world)
            event) := by
  intro backend quiet loud idle
  have lists := listsOnly_backendOf settings
  refine ⟨leavesAlike_run lists command session fun other only => ?_,
    endsBeside_run session fun other only left alike => ?_,
    fun other => says_quietRun lists other session⟩
  · obtain ⟨-, -, -, same⟩ :=
      exists_listing_of_lists backend surroundings arguments other only session
    -- Only the program that summarizes could touch the files in a listing, and it does not.
    have leaves := leavesFiles_listing settings surroundings arguments true session
    refine leaves.final_eq fun call member => idle only call ?_
    simp only [loud, backend, same]
    exact member
  · exact endsBeside_listing settings surroundings arguments alike

/-- In memory, where every line is taken, the runs leave and end alike. -/
theorem silences_memoryBackend (command : Command) (surroundings : Surroundings)
    (arguments : List Argument) (options : Options) (summary : Text)
    (session : Session MemoryStore) :
    let backend := memoryBackend summary
    let quiet := (command.run backend surroundings arguments (options.withQuiet true)).run session
    let loud := (command.run backend surroundings arguments (options.withQuiet false)).run session
    LeavesAlike id quiet loud ∧ quiet.result = loud.result ∧
      (command ≠ .shelves → ∀ event ∈ quiet.events,
        Shows (QuietLine backend command surroundings arguments options session.world) event) := by
  intro backend quiet loud
  have lists := listsOnly_memoryBackend summary
  have summarized (records : Shelves) : Summarized (memoryBackend summary) records :=
    fun _ _ _ _ => ⟨summary, rfl⟩
  refine ⟨leavesAlike_run lists command session fun _ _ => ?_, ?_,
    fun other => says_quietRun lists other session⟩
  · exact world_memoryListing summary surroundings arguments true session
  · have ends : EndsBeside (command ≠ .shelves ∧ options.listOnly = true ∧ False)
        (.fault .embeddedNull) quiet loud :=
      endsBeside_run session fun other only left alike =>
        ⟨fun _ => result_listing_of_summarized alike fun _ records _ => summarized records,
          False.elim⟩
    exact ends.alike fun holds => holds.2.2.elim

/-- With both stores, and on a stream that takes the lines of both, a quiet command asks the store
for the same calls as the same command aloud, and leaves the same log message and contents; what
it prints is told by `QuietLine`.  It ends in the same way too, but for one case: the program that
summarizes patches in a loud listing has a name that no call can hold, and there is a patch to
summarize. -/
theorem quiet_only_silences (command : Command) (surroundings : Surroundings)
    (arguments : List Argument) (options : Options) (stream : LineStream) :
    (∀ (settings : Settings) (session : Session Machine),
      let backend := backendOf settings
      let action (flag : Bool) :=
        command.run backend surroundings arguments (options.withQuiet flag)
      let quiet := (action true).runBefore (Report.audience stream) session
      let loud := (action false).runBefore (Report.audience stream) session
      (∀ flag, stream.Takes (((action flag).run session).events.filterMap Report.outLine?)) →
      (options.listOnly = true → ∀ call ∈ Session.ranCalls loud.events, call.left = call.found) →
        LeavesAlike Machine.tree quiet loud ∧
          EndsBeside (command ≠ .shelves ∧ options.listOnly = true ∧
            settings.diffstatProgram.holds '\x00' = true) (.fault .embeddedNull) quiet loud ∧
          (command ≠ .shelves → ∀ event ∈ quiet.events,
            Shows (QuietLine backend command surroundings arguments options session.world)
              event)) ∧
      ∀ (summary : Text) (session : Session MemoryStore),
        let backend := memoryBackend summary
        let action (flag : Bool) :=
          command.run backend surroundings arguments (options.withQuiet flag)
        let quiet := (action true).runBefore (Report.audience stream) session
        let loud := (action false).runBefore (Report.audience stream) session
        (∀ flag, stream.Takes (((action flag).run session).events.filterMap Report.outLine?)) →
          LeavesAlike id quiet loud ∧ quiet.result = loud.result ∧
            (command ≠ .shelves → ∀ event ∈ quiet.events,
              Shows (QuietLine backend command surroundings arguments options session.world)
                event) := by
  constructor
  · intro settings session backend action quiet loud takes
    simp only [quiet, loud, Report.runBefore_audience (takes true),
      Report.runBefore_audience (takes false)]
    exact silences_backendOf command surroundings arguments options settings session
  · intro summary session backend action quiet loud takes
    simp only [quiet, loud, Report.runBefore_audience (takes true),
      Report.runBefore_audience (takes false)]
    exact silences_memoryBackend command surroundings arguments options summary session

/-- Settings with a name for the summarizing program that no call can hold. -/
def namelessSettings : Settings :=
  { usualSettings with diffstatProgram := "diff\x00stat" }

/-- A machine that works in `/wc`, where there is one shelf, with a program that summarizes. -/
def listedMachine : Machine :=
  { machineWith "n.patch" (.file (Utf8.encode "Index: a\n") .epoch) id with
    programs := .ofList [("diffstat", ⟨true, [⟨0, Utf8.encode " a | 1 +\n", [], id⟩]⟩)] }

/-- The shelves on that machine are listed, quietly or not. -/
def listingOn (settings : Settings) (quiet : Bool) : Operation Machine Unit :=
  Command.shelve.run (backendOf settings) (surroundingsOn listedMachine) []
    (({ listOnly := true } : Options).withQuiet quiet)

/-- What that comes to on a stream of valid UTF-8. -/
def listedOn (settings : Settings) (quiet : Bool) : Outcome Event (Session Machine) Unit :=
  (listingOn settings quiet).runBefore (Report.audience .strict) (sessionOn listedMachine)

/-- With a program that can be called, the listing ends in the same way, quietly or not.  With a
name that no call can hold, only the loud one stops. -/
theorem quiet_only_silences_nameless :
    (listedOn usualSettings true).result = (listedOn usualSettings false).result ∧
      LeavesAlike Machine.tree (listedOn usualSettings true) (listedOn usualSettings false) ∧
      (listedOn namelessSettings true).result = .ok () ∧
      (listedOn namelessSettings false).result = .error (.fault .embeddedNull) := by
  have takes : ∀ settings ∈ [usualSettings, namelessSettings], ∀ flag,
      ∀ line ∈ ((listingOn settings flag).run (sessionOn listedMachine)).events.filterMap
        Report.outLine?, LineStream.strict line = none := by decide +kernel
  have still : ∀ settings ∈ [usualSettings, namelessSettings],
      ∀ call ∈ Session.ranCalls (listedOn settings false).events, call.left = call.found := by
    decide +kernel
  have shown : .printed "n                                   0 mins old          9 bytes\n " ∈
      (listedOn namelessSettings true).events := by decide +kernel
  rw [List.forall_mem_cons, List.forall_mem_singleton] at takes still
  obtain ⟨every, -⟩ := quiet_only_silences .shelve (surroundingsOn listedMachine) []
    { listOnly := true } .strict
  obtain ⟨alike, usual, -⟩ :=
    every usualSettings (sessionOn listedMachine) takes.1 fun _ => still.1
  obtain ⟨-, nameless, -⟩ :=
    every namelessSettings (sessionOn listedMachine) takes.2 fun _ => still.2
  obtain ⟨quiet, loud⟩ := nameless.apart ⟨nofun, rfl, by decide⟩ _ shown
  exact ⟨usual.alike fun holds => absurd holds.2.2 (by decide), alike, quiet, loud⟩

end Commands

end PatchShelf
