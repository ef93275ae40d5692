/-
Module: PatchShelf.Proofs.Store.DryRun
Purpose: A dry run changes nothing and reports what the real call reports.
Main exports:
  StoreCall.withDryRun, StoreCall.Reports, WorkingCopyStore.Rehearses,
  WorkingCopyStore.rehearses_perform, WorkingCopyStore.dryRun_inert_and_faithful
-/
import PatchShelf.Proofs.Machine.Stretches
import PatchShelf.Proofs.Machine.Trail
import PatchShelf.Proofs.Store.LegibleRecords
import PatchShelf.Proofs.Store.Refinement

/-!
The dry-run flag of a call is tested behind everything that can refuse the call and before
anything that changes a file.  So a dry run goes as far as the real call, up to the first
change, and reports the same paths; what the real call reports beyond that tells of changes
which the dry run does not make.
-/

namespace PatchShelf

namespace StoreCall

/-- The same call with the dry-run flag set or cleared. -/
def withDryRun (dryRun : Bool) : StoreCall → StoreCall
  | list root => list root
  | create request => create { request with dryRun := dryRun }
  | delete name root _ => delete name root dryRun
  | apply name root keepLocal _ => apply name root keepLocal dryRun

/-- What a call reports in a dry run, and what the real call reports beyond that: the paths
that are taken out of the working copy, and the shelf that is gone once it is applied. -/
inductive Reports : StoreCall → (shown beyond : List Notification) → Prop
  | list (root : Text) : Reports (.list root) [] []
  | create (request : CreateRequest) (paths : List Text) :
      Reports (.create request) (paths.map fun path => ⟨.shelved, path⟩)
        (if request.keepLocal then [] else paths.map fun path => ⟨.reverted, path⟩)
  | delete (name root : Text) (dryRun : Bool) (patchPath : Text) :
      Reports (.delete name root dryRun) [⟨.deleted, patchPath⟩] []
  | apply (name root : Text) (keepLocal dryRun : Bool) (paths : List Text) (patchPath : Text) :
      Reports (.apply name root keepLocal dryRun) (paths.map fun path => ⟨.patched, path⟩)
        (if keepLocal then [] else [⟨.deleted, patchPath⟩])

end StoreCall

namespace WorkingCopyStore

open Activity (calls notices)
open Machine (CallsOnly OnlyLogs Passes)

variable {settings : WorkingCopyStore} {root directory patchPath : Path}
  {request : CreateRequest} {machine : Machine} {name path : Text}

/-! ### Listing only logs -/

/-- To word what goes wrong adds nothing but a log. -/
theorem onlyLogs_explaining {α : Type} {task : Machine.Operation α} (lead : Text)
    (logs : OnlyLogs task) : OnlyLogs (explaining lead task) := by
  intro world
  rw [run_explaining]
  exact logs world

/-- By induction on the names, reading the records only logs. -/
theorem onlyLogs_readRecords (directory : Path) (names : List Text) (records : Shelves) :
    OnlyLogs (readRecords directory names records) := by
  induction names generalizing records with
  | nil => exact .ofReads (.pure _)
  | cons key rest ih =>
      rw [readRecords]
      split
      · exact .bind (.emit _) fun _ => ih _
      · refine .bind (.ofReads (Machine.reads_access _)) fun status => ?_
        refine .bind (.ofReads (.ofAccess _)) fun modified => ?_
        refine .bind (.ofReads (reads_readMessage _ _)) fun message => ?_
        exact .bind (.ofReads (.ofAccess _)) fun record => ih _

/-- A listing changes nothing, calls no program and reports nothing. -/
theorem onlyLogs_list (settings : WorkingCopyStore) (root : Text) :
    OnlyLogs (settings.list root) := by
  refine .bind (.ofReads (reads_findRoot root)) fun found => ?_
  refine .bind (.ofReads (Machine.reads_access _)) fun there => ?_
  cases there with
  | false => exact .ofReads (.pure _)
  | true =>
      refine onlyLogs_explaining _ (.bind (.ofReads (Machine.reads_access _)) fun names => ?_)
      exact onlyLogs_readRecords _ _ _

/-! ### Calls of the client -/

/-- A call of the client changes the files as its answer does, and no further. -/
theorem passes_runClient {allowed : FileTree → FileTree → Prop}
    (refl : ∀ tree, allowed tree tree) (root : Path) (subcommand : Text)
    (arguments : List Text) :
    Passes allowed (settings.runClient root subcommand arguments) machine := by
  by_cases called : settings.CanRun machine root subcommand arguments
  · exact .of_run (run_runClient called) ⟨refl _, refl _⟩
  · obtain ⟨reason, stopped⟩ := exists_run_runClient called
    exact .of_run stopped (refl _)

/-- A run of the client is one call, with the arguments that it was given. -/
theorem callsOnly_runClient {allowed : ProgramCall → Prop} {root : Path} {subcommand : Text}
    {arguments : List Text}
    (holds : ∀ call, call.arguments = subcommand :: arguments → allowed call) :
    CallsOnly allowed (settings.runClient root subcommand arguments) := by
  intro machine call member
  by_cases called : settings.CanRun machine root subcommand arguments
  · rw [run_runClient called] at member
    obtain rfl := List.mem_singleton.1 member
    exact holds _ rfl
  · obtain ⟨reason, stopped⟩ := exists_run_runClient called
    rw [stopped] at member
    cases member

/-! ### A dry run changes nothing -/

/-- The operation leaves every change of the files to the programs that it calls, and never
asks the client to revert. -/
structure Rehearses {α : Type} (action : Machine.Operation α) : Prop where
  passes : ∀ machine, Passes (· = ·) action machine
  unreverted : CallsOnly (fun call => call.arguments.head? ≠ some "revert") action

namespace Rehearses

variable {α β : Type}

/-- Who only reads rehearses. -/
theorem ofReads {action : Machine.Operation α} (reads : Effect.Reads action) :
    Rehearses action :=
  ⟨fun _ => .ofReads (fun _ => rfl) reads, .ofReads reads⟩

/-- Who only logs rehearses. -/
theorem ofOnlyLogs {action : Machine.Operation α} (logs : OnlyLogs action) :
    Rehearses action := by
  refine ⟨fun machine => ?_, .ofNoCall logs.calls_run⟩
  rw [Passes, logs.calls_run machine, (logs machine).1]
  rfl

/-- To report progress is to rehearse. -/
theorem progress (action : NotifyAction) (paths : List Text) :
    Rehearses (Effect.emitAll (Activity.progress action paths) : Machine.Operation Unit) :=
  ⟨fun _ => .emitAll (fun _ => rfl) (Activity.calls_progress _ _),
    .ofNoCall (Machine.MakesNoCall.emitAll (Activity.calls_progress _ _)).calls_run⟩

/-- A sequence rehearses if its parts do. -/
theorem bind {action : Machine.Operation α} {next : α → Machine.Operation β}
    (first : Rehearses action) (second : ∀ result, Rehearses (next result)) :
    Rehearses (action >>= next) := by
  refine ⟨fun machine => ?_, first.unreverted.bind fun result => (second result).unreverted⟩
  have trans (one two three : FileTree) : one = two → two = three → one = three := Eq.trans
  exact .bind trans (first.passes machine) fun result _ => (second result).passes _

/-- Each call of the client is one, except for `svn revert`. -/
theorem runClient (settings : WorkingCopyStore) (root : Path) {subcommand : Text}
    (arguments : List Text) (other : subcommand ≠ "revert") :
    Rehearses (settings.runClient root subcommand arguments) := by
  refine ⟨fun _ => passes_runClient (fun _ => rfl) _ _ _, callsOnly_runClient fun call made => ?_⟩
  rw [made]
  exact fun same => other (Option.some.inj same)

end Rehearses

/-- A dry create leaves out what would change the files. -/
theorem rehearses_create (settings : WorkingCopyStore) (dry : request.dryRun = true) :
    Rehearses (settings.create request) := by
  refine .bind (.ofReads (reads_prepare settings request)) fun (root, patchPath) => ?_
  refine .bind (.runClient settings root _ (by decide)) fun patch => ?_
  split
  · exact .ofReads (.fail _)
  · exact .bind (.progress _ _) fun _ => .ofOnlyLogs (.emit _)

/-- A dry delete leaves out what would change the files. -/
theorem rehearses_delete (settings : WorkingCopyStore) (name root : Text) :
    Rehearses (settings.delete name root true) := by
  refine .bind (.ofReads (reads_findRoot root)) fun found => ?_
  refine .bind (.ofReads (reads_existingPatch _ name)) fun patchPath => ?_
  exact .progress .deleted [patchPath.toText]

/-- The end of a dry apply keeps the shelf. -/
theorem rehearses_finishApply (settings : WorkingCopyStore) (root patchPath : Path)
    (name : Text) : Rehearses (settings.finishApply root patchPath name true) := by
  refine .bind (.ofReads (reads_explaining _ (Machine.reads_access _))) fun content => ?_
  exact .bind (.progress _ _) fun _ => .ofReads (.pure ())

/-- A dry apply asks the client for a dry run. -/
theorem rehearses_apply (settings : WorkingCopyStore) (name root : Text) (keepLocal : Bool) :
    Rehearses (settings.apply name root keepLocal true) := by
  refine .bind (.ofReads (reads_findRoot root)) fun found => ?_
  refine .bind (.ofReads (reads_existingPatch _ name)) fun patchPath => ?_
  refine .bind (.runClient settings found _ (by decide)) fun _ => ?_
  exact rehearses_finishApply settings found patchPath name

/-- Every call of the store with the flag set leaves the files to the client. -/
theorem rehearses_perform (settings : WorkingCopyStore) (call : StoreCall) :
    Rehearses (settings.perform (call.withDryRun true)) := by
  cases call with
  | list root => exact .bind (.ofOnlyLogs (onlyLogs_list settings root)) fun _ => .ofReads (.pure _)
  | create request => exact .bind (rehearses_create settings rfl) fun _ => .ofReads (.pure _)
  | delete name root dryRun =>
      exact .bind (rehearses_delete settings name root) fun _ => .ofReads (.pure _)
  | apply name root keepLocal dryRun =>
      exact .bind (rehearses_apply settings name root keepLocal) fun _ => .ofReads (.pure _)

/-! ### A dry run reports what the real call reports -/

/-- The client can be called for a patch, and what it answers is one. -/
structure Captures (settings : WorkingCopyStore) (root : Path) (request : CreateRequest)
    (machine : Machine) : Prop where
  called : settings.CanRun machine root "diff" (selection request)
  good : (settings.reply machine).status = 0
  filled : (settings.captured machine).isBlank = false

/-- What is captured is told by one notice for each path of the patch. -/
theorem Captures.run_capture (captures : Captures settings root request machine)
    (dry : request.dryRun = true) (patchPath : Path) :
    ((settings.capture root patchPath request).run machine).result = .ok () ∧
      notices ((settings.capture root patchPath request).run machine).events =
        (Patch.paths (settings.captured machine)).map fun path => ⟨.shelved, path⟩ := by
  have run := captureRun settings root patchPath request machine
  generalize (settings.capture root patchPath request).run machine = outcome at run ⊢
  cases run with
  | uncalled closed => exact absurd captures.called closed
  | failed called bad => exact absurd captures.good bad
  | blank called good blank =>
      rw [captures.filled] at blank
      cases blank
  | previewed called good filled dry => exact ⟨rfl, by simp [diffTrail]⟩
  | saved called good filled wet saves =>
      rw [dry] at wet
      cases wet

/-- A saved patch is reported again only as it is taken out. -/
theorem notices_of_saveRun {patch : Text} {outcome : Outcome Activity Machine Unit}
    (run : SaveRun settings root patchPath request patch machine outcome)
    (succeeded : outcome.result = .ok ()) :
    notices outcome.events =
      if request.keepLocal then []
      else (Patch.paths patch).map fun path => ⟨.reverted, path⟩ := by
  cases run with
  | unencodable refused => cases succeeded
  | misnamed encoded refused => cases succeeded
  | unwritten encoded named refused cleaned => cases succeeded
  | written encoded named writes takes =>
      cases takes with
      | kept keeps => simp [keeps]
      | uncalled takes closed => cases succeeded
      | failed takes called bad => cases succeeded
      | reverted takes called good => simp [takes]

/-- A create that succeeds has captured the patch, and its notices are those of a dry run with the
reverts behind them. -/
theorem captures_of_ok
    (succeeded : ((settings.capture root patchPath request).run machine).result = .ok ())
    (wet : request.dryRun = false) :
    Captures settings root request machine ∧
      notices ((settings.capture root patchPath request).run machine).events =
        (Patch.paths (settings.captured machine)).map (fun path => ⟨.shelved, path⟩) ++
          if request.keepLocal then []
          else (Patch.paths (settings.captured machine)).map fun path => ⟨.reverted, path⟩ := by
  have run := captureRun settings root patchPath request machine
  generalize (settings.capture root patchPath request).run machine = outcome at run succeeded ⊢
  cases run with
  | uncalled closed => cases succeeded
  | failed called bad => cases succeeded
  | blank called good blank => cases succeeded
  | previewed called good filled dry =>
      rw [dry] at wet
      cases wet
  | saved called good filled wet saves =>
      refine ⟨⟨called, good, filled⟩, ?_⟩
      simp [diffTrail, notices_of_saveRun saves succeeded]

/-- The outcomes of a dry run and of the real call: the dry run ends well too, and is told
apart by the reports that it leaves out. -/
structure Foreshows {α : Type} (call : StoreCall) (dry wet : Outcome Activity Machine α) :
    Prop where
  result : dry.result = wet.result
  reports : ∃ beyond, call.Reports (notices dry.events) beyond ∧
    notices wet.events = notices dry.events ++ beyond

/-- The dry create foreshows the real one that succeeds. -/
theorem foreshows_create
    (succeeded : ((settings.create { request with dryRun := false }).run machine).result =
      .ok ()) :
    Foreshows (.create request) ((settings.create { request with dryRun := true }).run machine)
      ((settings.create { request with dryRun := false }).run machine) := by
  -- neither the search for the root nor the selection looks at the flag
  have start : settings.prepare { request with dryRun := true } =
      settings.prepare { request with dryRun := false } := rfl
  have reads := reads_prepare settings { request with dryRun := false }
  obtain ⟨⟨root, patchPath⟩, ready, wetEnds⟩ := reads.exists_of_bind_ok succeeded
  obtain ⟨captures, wetReports⟩ := captures_of_ok wetEnds rfl
  have same : Captures settings root { request with dryRun := true } machine :=
    ⟨captures.called, captures.good, captures.filled⟩
  obtain ⟨dryEnds, dryReports⟩ := same.run_capture rfl patchPath
  rw [create, create, start, reads.run_bind_of_ok ready, reads.run_bind_of_ok ready]
  refine ⟨dryEnds.trans wetEnds.symm, _, ?_, dryReports.symm ▸ wetReports⟩
  rw [dryReports]
  exact .create request _

/-- Removing the files leaves no trail. -/
theorem silent_removeFiles (directory patchPath : Path) (name : Text) :
    Effect.Silent (removeFiles directory patchPath name) := by
  refine .bind (Machine.silent_alter _) fun _ => ?_
  exact .bind (.ofReads (.ofChecked _)) fun logPath => Machine.silent_unlinkIfPresent logPath

/-- A deletion that goes well reports the patch file, in a dry run and in a real one. -/
theorem exists_of_delete_ok (settings : WorkingCopyStore)
    (succeeded : ((settings.delete name path false).run machine).result = .ok ()) :
    ∃ shown, notices ((settings.delete name path false).run machine).events =
        [⟨.deleted, shown⟩] ∧
      (settings.delete name path true).run machine =
        ⟨.ok (), machine, Activity.progress .deleted [shown]⟩ := by
  obtain ⟨root, rooted, found⟩ := (reads_findRoot path).exists_of_bind_ok succeeded
  obtain ⟨patchPath, looked, removes⟩ := (reads_existingPatch _ name).exists_of_bind_ok found
  refine ⟨patchPath.toText, ?_, ?_⟩
  · rw [delete, (reads_findRoot path).run_bind_of_ok rooted,
      (reads_existingPatch _ name).run_bind_of_ok looked]
    obtain ⟨removed, -, -, whole⟩ := Effect.exists_of_run_bind_ok removes
    refine (congrArg (fun outcome => notices outcome.events) whole).trans ?_
    have silent := silent_removeFiles (settings.shelvesPath root) patchPath name machine
    simp [run_explaining, silent]
  · rw [delete, (reads_findRoot path).run_bind_of_ok rooted,
      (reads_existingPatch _ name).run_bind_of_ok looked]
    rfl

/-- The dry delete foreshows the real one that succeeds. -/
theorem foreshows_delete (flag : Bool)
    (succeeded : ((settings.delete name path false).run machine).result = .ok ()) :
    Foreshows (.delete name path flag) ((settings.delete name path true).run machine)
      ((settings.delete name path false).run machine) := by
  obtain ⟨shown, wetReports, dry⟩ := exists_of_delete_ok settings succeeded
  rw [dry]
  exact ⟨succeeded.symm, [], .delete name path flag shown, by simpa using wetReports⟩

/-- Once the client has applied a patch, its paths are reported, and then the patch file if
the shelf is deleted. -/
theorem exists_of_finishApply_ok {kept : Bool}
    (succeeded : ((settings.finishApply root patchPath name kept).run machine).result = .ok ()) :
    ∃ paths shown,
      notices ((settings.finishApply root patchPath name kept).run machine).events =
        paths.map (fun path => ⟨.patched, path⟩) ++ (if kept then [] else [⟨.deleted, shown⟩]) ∧
      (settings.finishApply root patchPath name true).run machine =
        ⟨.ok (), machine, Activity.progress .patched paths⟩ := by
  have reads : Effect.Reads (explaining ("Can't read shelf '" ++ name ++ "'")
      (Machine.access fun tree base => tree.read base patchPath)) :=
    reads_explaining _ (Machine.reads_access _)
  obtain ⟨content, read, goes⟩ := reads.exists_of_bind_ok succeeded
  have dry : (settings.finishApply root patchPath name true).run machine =
      ⟨.ok (), machine, Activity.progress .patched (Patch.paths (outputText content))⟩ := by
    rw [finishApply, reads.run_bind_of_ok read]
    simp [Effect.run_bind]
  cases kept with
  | true => exact ⟨_, [], by simp [dry], dry⟩
  | false =>
      rw [Effect.run_bind, Effect.run_emitAll] at goes
      obtain ⟨shown, deleted, -⟩ := exists_of_delete_ok settings goes
      refine ⟨_, shown, ?_, dry⟩
      rw [finishApply, reads.run_bind_of_ok read]
      simp [Effect.run_bind, deleted]

/-- The dry-run flag of a patch does not decide whether the client can be called. -/
theorem CanRun.dryRun (called : settings.CanRun machine root "patch"
    (patchArguments patchPath false)) :
    settings.CanRun machine root "patch" (patchArguments patchPath true) := by
  have noNull := called.noNull
  have flag : Text.holds "--dry-run" '\x00' = false := by decide
  refine called.elsewhere ?_ called.stands
  simpa [patchArguments, flag] using noNull

/-- What an application does once the patch file is found. -/
theorem run_apply_of_found {keepLocal dryRun : Bool}
    (rooted : ((findRoot path).run machine).result = .ok root)
    (looked : ((existingPatch (settings.shelvesPath root) name).run machine).result =
      .ok patchPath) :
    (settings.apply name path keepLocal dryRun).run machine =
      (settings.runClient root "patch" (patchArguments patchPath dryRun) >>= fun _ =>
        settings.finishApply root patchPath name (dryRun || keepLocal)).run machine := by
  rw [apply, (reads_findRoot path).run_bind_of_ok rooted,
    (reads_existingPatch _ name).run_bind_of_ok looked]

/-- The dry apply does so, with the notice of the deletion. -/
theorem foreshows_apply {keepLocal : Bool} (flag : Bool)
    (succeeded : ((settings.apply name path keepLocal false).run machine).result = .ok ()) :
    Foreshows (.apply name path keepLocal flag)
      ((settings.apply name path keepLocal true).run machine)
      ((settings.apply name path keepLocal false).run machine) := by
  obtain ⟨root, rooted, found⟩ := (reads_findRoot path).exists_of_bind_ok succeeded
  obtain ⟨patchPath, looked, applies⟩ := (reads_existingPatch _ name).exists_of_bind_ok found
  rw [run_apply_of_found rooted looked, run_apply_of_found rooted looked]
  obtain ⟨output, answered, finishes, whole⟩ := Effect.exists_of_run_bind_ok applies
  by_cases called : settings.CanRun machine root "patch" (patchArguments patchPath false)
  · have wetCalled := run_runClient called
    have dryCalled := run_runClient called.dryRun
    rw [wetCalled] at answered finishes whole
    -- told that it is a dry run, the client gives the answer that it gives anyway
    have answer : settings.taken "patch" (settings.reply machine) = .ok output := answered
    rw [answer] at dryCalled
    obtain ⟨paths, shown, wetReports, dry⟩ := exists_of_finishApply_ok finishes
    rw [whole, Effect.run_bind_ok dryCalled, Bool.true_or, dry]
    refine ⟨rfl, if keepLocal then [] else [⟨.deleted, shown⟩], ?_, ?_⟩
    · simpa using StoreCall.Reports.apply name path keepLocal flag paths shown
    · simpa using wetReports
  · obtain ⟨reason, stopped⟩ := exists_run_runClient called
    rw [stopped] at answered
    cases answered

/-- A call without an answer of its own is foreshown like what it does. -/
theorem Foreshows.unanswered {call : StoreCall} {dry wet : Machine.Operation Unit}
    (foreshows : Foreshows call (dry.run machine) (wet.run machine)) :
    Foreshows call ((dry >>= fun _ => pure (none : Option Shelves)).run machine)
      ((wet >>= fun _ => pure (none : Option Shelves)).run machine) := by
  rw [run_unanswered, run_unanswered]
  exact ⟨congrArg (Except.map fun _ => none) foreshows.result, foreshows.reports⟩

/-- A call without an answer succeeds as its action does. -/
theorem ok_of_unanswered {action : Machine.Operation Unit} {answer : Option Shelves}
    (succeeded : ((action >>= fun _ => pure (none : Option Shelves)).run machine).result =
      .ok answer) : (action.run machine).result = .ok () := by
  obtain ⟨done, ended, -, -⟩ := Effect.exists_of_run_bind_ok succeeded
  exact ended

/-- Each call, made dry, foreshows itself. -/
theorem foreshows_perform {call : StoreCall} {answer : Option Shelves}
    (succeeded : ((settings.perform (call.withDryRun false)).run machine).result = .ok answer) :
    Foreshows call ((settings.perform (call.withDryRun true)).run machine)
      ((settings.perform (call.withDryRun false)).run machine) := by
  cases call with
  | list root =>
      have logs : OnlyLogs (settings.perform (.list root)) :=
        .bind (onlyLogs_list settings root) fun _ => .ofReads (.pure _)
      have silent := logs.notices_eq machine
      exact ⟨rfl, [], silent ▸ .list root, (List.append_nil _).symm⟩
  | create request => exact (foreshows_create (ok_of_unanswered succeeded)).unanswered
  | delete name root dryRun =>
      exact (foreshows_delete dryRun (ok_of_unanswered succeeded)).unanswered
  | apply name root keepLocal dryRun =>
      exact (foreshows_apply dryRun (ok_of_unanswered succeeded)).unanswered

/-- A dry run of any call leaves the files to the client: if this changes none, they are as
before, however the call ends, and the client is never asked to revert.  When the real call
would go well, so does the dry run, and it reports the same but for what the real call
changes beyond that. -/
theorem dryRun_inert_and_faithful (settings : WorkingCopyStore) (call : StoreCall)
    (machine : Machine) :
    let dry := (settings.perform (call.withDryRun true)).run machine
    let wet := (settings.perform (call.withDryRun false)).run machine
    ((∀ made ∈ calls dry.events, made.left = made.found) → dry.world.tree = machine.tree) ∧
      (∀ made ∈ calls dry.events, made.arguments.head? ≠ some "revert") ∧
      ∀ answer, wet.result = .ok answer → Foreshows call dry wet := by
  have rehearses := rehearses_perform settings call
  refine ⟨fun idle => (rehearses.passes machine).final_eq idle, rehearses.unreverted machine, ?_⟩
  intro answer succeeded
  exact foreshows_perform succeeded

/-- A call that makes a shelf of the usual working copy, in a dry run or a real one. -/
def plainCreate (dryRun : Bool) : Outcome Activity Machine (Option Shelves) :=
  (plainSettings.perform ((StoreCall.create (plainRequest (some "why"))).withDryRun dryRun)).run
    (plainMachine (Utf8.encode "Index: a\n+x\n"))

theorem dryRun_inert_and_faithful_plain :
    (plainCreate true).world.tree = (plainMachine []).tree ∧
      (plainCreate false).world.tree ≠ (plainMachine []).tree ∧
      notices (plainCreate false).events = [⟨.shelved, "a"⟩, ⟨.reverted, "a"⟩] ∧
      Foreshows (.create (plainRequest (some "why"))) (plainCreate true) (plainCreate false) := by
  have idle : ∀ made ∈ calls (plainCreate true).events, made.left = made.found := by
    decide +kernel
  have succeeded : (plainCreate false).result = .ok none := by decide +kernel
  have changed : (plainCreate false).world.tree ≠ (plainMachine []).tree := by decide +kernel
  have reports : notices (plainCreate false).events = [⟨.shelved, "a"⟩, ⟨.reverted, "a"⟩] := by
    decide +kernel
  obtain ⟨inert, -, faithful⟩ := dryRun_inert_and_faithful plainSettings
    (.create (plainRequest (some "why"))) (plainMachine (Utf8.encode "Index: a\n+x\n"))
  exact ⟨inert idle, changed, reports, faithful none succeeded⟩

end WorkingCopyStore

end PatchShelf
