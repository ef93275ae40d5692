/-
Module: PatchShelf.Proofs.Store.CreateRun
Purpose: The ways in which making a shelf can end, one constructor for each exit.
Main exports:
  WorkingCopyStore.Prepared, WorkingCopyStore.TakeOutRun, WorkingCopyStore.SaveRun,
  WorkingCopyStore.CaptureRun, WorkingCopyStore.captureRun, WorkingCopyStore.create_cases,
  WorkingCopyStore.Creation, WorkingCopyStore.exists_creation, WorkingCopyStore.TakesOut,
  WorkingCopyStore.exists_takesOut
-/
import PatchShelf.Proofs.Store.Root

/-!
Making a shelf looks for the root of the working copy, captures a patch, writes the
files and takes the changes out.  A run is described by where it ends: what decided
that, the machine that is left, and the trail.
-/

namespace PatchShelf

namespace WorkingCopyStore

variable {settings : WorkingCopyStore} {root patchPath : Path} {request : CreateRequest}
  {machine : Machine}

/-! ### Before the client is called -/

/-- A request that gets as far as the client: its first target lies in a working copy,
and no shelf of its name is there. -/
structure Prepared (settings : WorkingCopyStore) (request : CreateRequest) (machine : Machine)
    (root patchPath : Path) : Prop where
  inside : ∃ first rest, request.targets = first :: rest ∧
    ((findRoot first).run machine).result = .ok root
  named : shelfFile (settings.shelvesPath root) request.name Shelf.patchSuffix = .ok patchPath
  absent : machine.tree.isPresent machine.directory patchPath = .ok false

theorem reads_prepare (settings : WorkingCopyStore) (request : CreateRequest) :
    Effect.Reads (settings.prepare request) := by
  rw [prepare.eq_def]
  cases request.targets with
  | nil => exact .stop _
  | cons first rest =>
      refine .bind (reads_findRoot first) fun root => ?_
      refine .bind (.ofChecked _) fun patchPath => ?_
      refine .bind (Machine.reads_access _) fun present => ?_
      cases present with
      | true => exact .fail _
      | false => exact .pure _

/-- A create that is prepared has a root and a patch path for its name. -/
theorem prepared_of_ok
    (ended : ((settings.prepare request).run machine).result = .ok (root, patchPath)) :
    Prepared settings request machine root patchPath := by
  rw [prepare.eq_def] at ended
  cases targets : request.targets with
  | nil =>
      rw [targets] at ended
      cases ended
  | cons first rest =>
      rw [targets] at ended
      obtain ⟨place, found, ended⟩ := (reads_findRoot first).exists_of_bind_ok ended
      obtain ⟨path, named, ended⟩ := (Effect.Reads.ofChecked _).exists_of_bind_ok ended
      obtain ⟨there, present, ended⟩ := (Machine.reads_access _).exists_of_bind_ok ended
      rw [Effect.run_ofChecked] at named
      rw [Machine.run_access] at present
      cases there with
      | true => cases ended
      | false =>
          obtain ⟨rfl, rfl⟩ := Prod.mk.inj (Except.ok.inj ended)
          exact ⟨⟨first, rest, targets, found⟩, mapError_eq_ok_iff.1 named,
            mapError_eq_ok_iff.1 present⟩

/-! ### After the files are written -/

/-- What the store logs when a shelf is made. -/
def shelvedRecord (request : CreateRequest) (patch : Text) : LogRecord :=
  ⟨.info, logger, "Shelved " ++ countedPaths (Patch.paths patch) request.name⟩

/-- How taking the changes out can end. -/
inductive TakeOutRun (settings : WorkingCopyStore) (root : Path) (request : CreateRequest)
    (patch : Text) (machine : Machine) : Outcome Activity Machine Unit → Prop
  | kept (keeps : request.keepLocal = true) :
      TakeOutRun settings root request patch machine
        ⟨.ok (), machine, [.logged (shelvedRecord request patch)]⟩
  | uncalled {reason : Stop} (takes : request.keepLocal = false)
      (closed : ¬ settings.CanRun machine root "revert" (selection request)) :
      TakeOutRun settings root request patch machine
        ⟨.error reason, machine,
          [.logged (settings.callRecord root "revert" (selection request))]⟩
  | failed (takes : request.keepLocal = false)
      (called : settings.CanRun machine root "revert" (selection request))
      (bad : (settings.reply machine).status ≠ 0) :
      TakeOutRun settings root request patch machine
        ⟨.error (.failure (callFailure settings "revert" (settings.reply machine))),
          machine.afterCall settings.program,
          [.logged (settings.callRecord root "revert" (selection request)),
            .ran (settings.clientCall machine root "revert" (selection request))]⟩
  | reverted (takes : request.keepLocal = false)
      (called : settings.CanRun machine root "revert" (selection request))
      (good : (settings.reply machine).status = 0) :
      TakeOutRun settings root request patch machine
        ⟨.ok (), machine.afterCall settings.program,
          [.logged (settings.callRecord root "revert" (selection request)),
            .ran (settings.clientCall machine root "revert" (selection request))] ++
            Activity.progress .reverted (Patch.paths patch) ++
            [.logged (shelvedRecord request patch)]⟩

/-- Taking the changes out ends in one of these ways. -/
theorem takeOutRun (settings : WorkingCopyStore) (root : Path) (request : CreateRequest)
    (patch : Text) (machine : Machine) :
    TakeOutRun settings root request patch machine
      ((settings.takeOut root request patch).run machine) := by
  rw [takeOut]
  cases takes : request.keepLocal with
  | true => exact .kept takes
  | false =>
      simp only [Bool.false_eq_true, if_false]
      by_cases called : settings.CanRun machine root "revert" (selection request)
      · rw [Effect.run_bind, run_runClient called]
        by_cases good : (settings.reply machine).status = 0
        · have ends : TakeOutRun settings root request patch machine _ :=
            .reverted takes called good
          simpa [taken, good, Effect.run_bind, shelvedRecord, List.append_assoc] using ends
        · have ends : TakeOutRun settings root request patch machine _ :=
            .failed takes called good
          simpa [taken, good] using ends
      · obtain ⟨reason, stopped⟩ := exists_run_runClient called
        rw [Effect.run_bind, stopped]
        exact .uncalled takes called

/-! ### Saving a patch -/

/-- How saving a captured patch can end. -/
inductive SaveRun (settings : WorkingCopyStore) (root patchPath : Path)
    (request : CreateRequest) (patch : Text) (machine : Machine) :
    Outcome Activity Machine Unit → Prop
  | unencodable {failure : Failure}
      (refused : encodeMessage request.name request.logMessage = .error failure) :
      SaveRun settings root patchPath request patch machine ⟨.error (.failure failure), machine, []⟩
  | misnamed {message : Option Bytes} {failure : Failure}
      (encoded : encodeMessage request.name request.logMessage = .ok message)
      (refused : shelfFile (settings.shelvesPath root) request.name Shelf.logSuffix =
        .error failure) :
      SaveRun settings root patchPath request patch machine ⟨.error (.failure failure), machine, []⟩
  | unwritten {message : Option Bytes} {logPath : Path} {reason shown : Stop} {after : Machine}
      (encoded : encodeMessage request.name request.logMessage = .ok message)
      (named : shelfFile (settings.shelvesPath root) request.name Shelf.logSuffix = .ok logPath)
      (refused : ((writeFiles (settings.shelvesPath root) patchPath logPath (Utf8.encode patch)
        message).run machine).result = .error reason)
      (cleaned : (explainingAfter (Machine.unlinkIfPresent patchPath)
        ("Can't write shelf '" ++ request.name ++ "'")
        (writeFiles (settings.shelvesPath root) patchPath logPath (Utf8.encode patch)
          message)).run machine = ⟨.error shown, after, []⟩) :
      SaveRun settings root patchPath request patch machine ⟨.error shown, after, []⟩
  | written {message : Option Bytes} {logPath : Path} {after : Machine}
      {outcome : Outcome Activity Machine Unit}
      (encoded : encodeMessage request.name request.logMessage = .ok message)
      (named : shelfFile (settings.shelvesPath root) request.name Shelf.logSuffix = .ok logPath)
      (writes : (writeFiles (settings.shelvesPath root) patchPath logPath (Utf8.encode patch)
        message).run machine = ⟨.ok (), after, []⟩)
      (takes : TakeOutRun settings root request patch after outcome) :
      SaveRun settings root patchPath request patch machine outcome

/-- What is done after a refusal leaves no success behind. -/
theorem exists_error_of_explainingAfter {cleanup task : Machine.Operation Unit} {lead : Text}
    {reason : Stop} (refused : (task.run machine).result = .error reason) :
    ∃ shown after events,
      (explainingAfter cleanup lead task).run machine = ⟨.error shown, after, events⟩ := by
  rw [run_explainingAfter, refused]
  split
  · rename_i same
    cases same
  · rw [Effect.run_bind]
    cases (cleanup.run (task.run machine).world).result with
    | error other => exact ⟨_, _, _, rfl⟩
    | ok done => exact ⟨_, _, _, rfl⟩
  · exact ⟨reason, (task.run machine).world, (task.run machine).events, by rw [← refused]⟩

/-- Saving a captured patch ends in one of these ways. -/
theorem saveRun (settings : WorkingCopyStore) (root patchPath : Path) (request : CreateRequest)
    (patch : Text) (machine : Machine) :
    SaveRun settings root patchPath request patch machine
      ((settings.savePatch root patchPath request patch).run machine) := by
  rw [savePatch, (Effect.Reads.ofChecked _).run_bind, Effect.run_ofChecked]
  cases encoded : encodeMessage request.name request.logMessage with
  | error failure => exact .unencodable encoded
  | ok message =>
      simp only [mapError_ok]
      rw [(Effect.Reads.ofChecked _).run_bind, Effect.run_ofChecked]
      cases named : shelfFile (settings.shelvesPath root) request.name Shelf.logSuffix with
      | error failure => exact .misnamed encoded named
      | ok logPath =>
          simp only [mapError_ok]
          rw [Effect.run_bind]
          have silent := silent_writeFiles (settings.shelvesPath root) patchPath logPath
            (Utf8.encode patch) message
          cases ended : (writeFiles (settings.shelvesPath root) patchPath logPath
              (Utf8.encode patch) message).run machine with
          | mk result after events =>
              obtain rfl : events = [] := by simpa [ended] using silent machine
              cases result with
              | ok done =>
                  rw [run_explainingAfter, ended]
                  exact .written encoded named ended (takeOutRun _ _ _ _ _)
              | error reason =>
                  have refused := congrArg Outcome.result ended
                  obtain ⟨shown, left, trail, cleaned⟩ :=
                    exists_error_of_explainingAfter refused
                  obtain rfl : trail = [] := (congrArg Outcome.events cleaned).symm.trans
                    (silent_explainingAfter (Machine.silent_unlinkIfPresent patchPath) silent
                      machine)
                  rw [cleaned]
                  exact .unwritten encoded named refused cleaned

/-! ### Capturing a patch -/

/-- What the store logs at the end of a dry run. -/
def previewRecord (request : CreateRequest) (patch : Text) : LogRecord :=
  ⟨.info, logger, "Dry run: would shelve " ++ countedPaths (Patch.paths patch) request.name⟩

/-- What the trail shows of a call of the client for a patch. -/
def diffTrail (settings : WorkingCopyStore) (root : Path) (request : CreateRequest)
    (machine : Machine) : List Activity :=
  [.logged (settings.callRecord root "diff" (selection request)),
    .ran (settings.clientCall machine root "diff" (selection request))]

@[simp] theorem calls_diffTrail (settings : WorkingCopyStore) (root : Path)
    (request : CreateRequest) (machine : Machine) :
    Activity.calls (diffTrail settings root request machine) =
      [settings.clientCall machine root "diff" (selection request)] := rfl

/-- The patch that the client gives when it is called next. -/
def captured (settings : WorkingCopyStore) (machine : Machine) : Text :=
  outputText (settings.reply machine).output

/-- How capturing a patch can end. -/
inductive CaptureRun (settings : WorkingCopyStore) (root patchPath : Path)
    (request : CreateRequest) (machine : Machine) : Outcome Activity Machine Unit → Prop
  | uncalled {reason : Stop}
      (closed : ¬ settings.CanRun machine root "diff" (selection request)) :
      CaptureRun settings root patchPath request machine
        ⟨.error reason, machine, [.logged (settings.callRecord root "diff" (selection request))]⟩
  | failed (called : settings.CanRun machine root "diff" (selection request))
      (bad : (settings.reply machine).status ≠ 0) :
      CaptureRun settings root patchPath request machine
        ⟨.error (.failure (callFailure settings "diff" (settings.reply machine))),
          machine.afterCall settings.program, diffTrail settings root request machine⟩
  | blank {failure : Failure} (called : settings.CanRun machine root "diff" (selection request))
      (good : (settings.reply machine).status = 0)
      (blank : (settings.captured machine).isBlank = true) :
      CaptureRun settings root patchPath request machine
        ⟨.error (.failure failure), machine.afterCall settings.program,
          diffTrail settings root request machine⟩
  | previewed (called : settings.CanRun machine root "diff" (selection request))
      (good : (settings.reply machine).status = 0)
      (filled : (settings.captured machine).isBlank = false) (dry : request.dryRun = true) :
      CaptureRun settings root patchPath request machine
        ⟨.ok (), machine.afterCall settings.program,
          diffTrail settings root request machine ++
            Activity.progress .shelved (Patch.paths (settings.captured machine)) ++
            [.logged (previewRecord request (settings.captured machine))]⟩
  | saved {outcome : Outcome Activity Machine Unit}
      (called : settings.CanRun machine root "diff" (selection request))
      (good : (settings.reply machine).status = 0)
      (filled : (settings.captured machine).isBlank = false) (wet : request.dryRun = false)
      (saves : SaveRun settings root patchPath request (settings.captured machine)
        (machine.afterCall settings.program) outcome) :
      CaptureRun settings root patchPath request machine
        ⟨outcome.result, outcome.world,
          diffTrail settings root request machine ++
            Activity.progress .shelved (Patch.paths (settings.captured machine)) ++
            outcome.events⟩

/-- Capturing a patch ends in one of these ways. -/
theorem captureRun (settings : WorkingCopyStore) (root patchPath : Path)
    (request : CreateRequest) (machine : Machine) :
    CaptureRun settings root patchPath request machine
      ((settings.capture root patchPath request).run machine) := by
  rw [capture, Effect.run_bind]
  by_cases called : settings.CanRun machine root "diff" (selection request)
  · rw [run_runClient called]
    by_cases good : (settings.reply machine).status = 0
    · have patch : settings.taken "diff" (settings.reply machine) =
          .ok (settings.captured machine) := by
        rw [taken, if_pos good, captured]
      rw [patch]
      simp only
      cases filled : (settings.captured machine).isBlank with
      | true => exact .blank called good filled
      | false =>
          simp only [Bool.false_eq_true, if_false]
          cases dry : request.dryRun with
          | true =>
              have ends : CaptureRun settings root patchPath request machine _ :=
                .previewed called good filled dry
              simpa [Effect.run_bind, diffTrail, previewRecord] using ends
          | false =>
              have saves := saveRun settings root patchPath request (settings.captured machine)
                (machine.afterCall settings.program)
              have ends := CaptureRun.saved called good filled dry saves
              simpa [Effect.run_bind, diffTrail] using ends
    · have stopped : settings.taken "diff" (settings.reply machine) =
          .error (.failure (callFailure settings "diff" (settings.reply machine))) := by
        rw [taken, if_neg good]
      rw [stopped]
      exact .failed called good
  · obtain ⟨reason, stopped⟩ := exists_run_runClient called
    rw [stopped]
    exact .uncalled called

/-- A request either changes nothing and leaves no trail, or gets as far as the client. -/
theorem create_cases (settings : WorkingCopyStore) (request : CreateRequest)
    (machine : Machine) :
    (∃ reason, ((settings.prepare request).run machine).result = .error reason ∧
      (settings.create request).run machine = ⟨.error reason, machine, []⟩) ∨
    ∃ root patchPath, Prepared settings request machine root patchPath ∧
      CaptureRun settings root patchPath request machine
        ((settings.create request).run machine) := by
  rw [create, (reads_prepare settings request).run_bind]
  cases ended : ((settings.prepare request).run machine).result with
  | error reason => exact .inl ⟨reason, rfl, rfl⟩
  | ok pair =>
      obtain ⟨root, patchPath⟩ := pair
      exact .inr ⟨root, patchPath, prepared_of_ok ended, captureRun _ _ _ _ _⟩

/-! ### Shelves that are made -/

theorem encodeMessage_eq_ok {name : Text} {given : Option Text} {message : Option Bytes}
    (encoded : encodeMessage name given = .ok message) : message = given.map Utf8.encode := by
  cases given with
  | none =>
      obtain rfl := Except.ok.inj encoded
      rfl
  | some text =>
      rw [encodeMessage, Utf8.encodeValid] at encoded
      split at encoded
      · rename_i bytes valid
        split at valid
        · obtain rfl := Except.ok.inj valid
          obtain rfl := Except.ok.inj encoded
          rfl
        · cases valid
      · cases encoded

/-- A request that makes a shelf: where its files are, the machine on which they are
written, and how the changes are taken out after that. -/
structure Creation (settings : WorkingCopyStore) (request : CreateRequest) (machine : Machine)
    (root patchPath logPath : Path) (written : Machine)
    (taken : Outcome Activity Machine Unit) : Prop where
  prepared : Prepared settings request machine root patchPath
  logNamed : shelfFile (settings.shelvesPath root) request.name Shelf.logSuffix = .ok logPath
  called : settings.CanRun machine root "diff" (selection request)
  encoded : encodeMessage request.name request.logMessage =
    .ok (request.logMessage.map Utf8.encode)
  writes : (writeFiles (settings.shelvesPath root) patchPath logPath
      (Utf8.encode (settings.captured machine)) (request.logMessage.map Utf8.encode)).run
        (machine.afterCall settings.program) = ⟨.ok (), written, []⟩
  takes : TakeOutRun settings root request (settings.captured machine) written taken
  ended : taken.result = .ok ()
  whole : (settings.create request).run machine =
    ⟨taken.result, taken.world, diffTrail settings root request machine ++
      Activity.progress .shelved (Patch.paths (settings.captured machine)) ++ taken.events⟩

/-- A request that succeeds, and is no dry run, makes a shelf. -/
theorem exists_creation (wet : request.dryRun = false)
    (succeeded : ((settings.create request).run machine).result = .ok ()) :
    ∃ root patchPath logPath written taken,
      Creation settings request machine root patchPath logPath written taken := by
  rcases create_cases settings request machine with
    ⟨reason, -, stopped⟩ | ⟨root, patchPath, prepared, run⟩
  · rw [stopped] at succeeded
    cases succeeded
  · generalize shown : (settings.create request).run machine = outcome at run succeeded
    cases run with
    | uncalled closed => cases succeeded
    | failed called bad => cases succeeded
    | blank called good blank => cases succeeded
    | previewed called good filled dry =>
        rw [wet] at dry
        cases dry
    | saved called good filled wet saves =>
        cases saves with
        | unencodable refused => cases succeeded
        | misnamed encoded refused => cases succeeded
        | unwritten encoded named refused cleaned => cases succeeded
        | written encoded named writes takes =>
            obtain rfl := encodeMessage_eq_ok encoded
            exact ⟨_, _, _, _, _, prepared, named, called, encoded, writes, takes, succeeded, shown⟩

/-! ### Changes that are taken out -/

/-- A request that calls the client to take the changes out: where its files are, and the
machine on which they have been written by then. -/
structure TakesOut (settings : WorkingCopyStore) (request : CreateRequest) (machine : Machine)
    (root patchPath logPath : Path) (written : Machine) : Prop where
  prepared : Prepared settings request machine root patchPath
  logNamed : shelfFile (settings.shelvesPath root) request.name Shelf.logSuffix = .ok logPath
  wet : request.dryRun = false
  takes : request.keepLocal = false
  encoded : encodeMessage request.name request.logMessage =
    .ok (request.logMessage.map Utf8.encode)
  writes : (writeFiles (settings.shelvesPath root) patchPath logPath
      (Utf8.encode (settings.captured machine)) (request.logMessage.map Utf8.encode)).run
        (machine.afterCall settings.program) = ⟨.ok (), written, []⟩
  world : ((settings.create request).run machine).world = written.afterCall settings.program
  order : Activity.calls ((settings.create request).run machine).events =
    [settings.clientCall machine root "diff" (selection request),
      settings.clientCall written root "revert" (selection request)]

/-- A create that reverts is one that takes the changes out. -/
theorem exists_takesOut {revert : ProgramCall}
    (made : revert ∈ Activity.calls ((settings.create request).run machine).events)
    (reverts : revert.arguments.head? = some ("revert" : Text)) :
    ∃ root patchPath logPath written,
      TakesOut settings request machine root patchPath logPath written ∧
        revert = settings.clientCall written root "revert" (selection request) := by
  rcases create_cases settings request machine with
    ⟨reason, -, stopped⟩ | ⟨root, patchPath, prepared, run⟩
  · rw [stopped] at made
    cases made
  -- The call for the patch is none that takes changes out.
  have other : revert ≠ settings.clientCall machine root "diff" (selection request) := by
    rintro rfl
    exact absurd (Option.some.inj reverts) (by decide)
  generalize ended : (settings.create request).run machine = outcome at run made
  have alone (only : Activity.calls outcome.events =
      [settings.clientCall machine root "diff" (selection request)]) : False :=
    other (List.mem_singleton.1 (only ▸ made))
  cases run with
  | uncalled closed => cases made
  | failed called bad => exact (alone rfl).elim
  | blank called good blank => exact (alone rfl).elim
  | previewed called good filled dry => exact (alone (by simp)).elim
  | saved called good filled wet saves =>
      cases saves with
      | unencodable refused => exact (alone (by simp)).elim
      | misnamed encoded refused => exact (alone (by simp)).elim
      | unwritten encoded named refused cleaned => exact (alone (by simp)).elim
      | written encoded named writes takes =>
          obtain rfl := encodeMessage_eq_ok encoded
          cases takes with
          | kept keeps => exact (alone (by simp)).elim
          | uncalled takes closed => exact (alone (by simp)).elim
          | failed takes reached bad =>
              obtain rfl : revert = _ := by simpa [other] using made
              exact ⟨_, _, _, _, ⟨prepared, named, wet, takes, encoded, writes, by rw [ended],
                by simp [ended]⟩, rfl⟩
          | reverted takes reached good =>
              obtain rfl : revert = _ := by simpa [other] using made
              exact ⟨_, _, _, _, ⟨prepared, named, wet, takes, encoded, writes, by rw [ended],
                by simp [ended]⟩, rfl⟩

end WorkingCopyStore

end PatchShelf
