/-
Module: PatchShelf.Proofs.Store.Verdicts
Purpose: Making, deleting and applying a shelf, as operations on the map of shelves.
Main exports:
  Verdict, SavedShelves.create, SavedShelves.delete, SavedShelves.apply,
  WorkingCopyStore.heard, WorkingCopyStore.follows_create,
  WorkingCopyStore.follows_delete, WorkingCopyStore.follows_apply
-/
import PatchShelf.Proofs.Store.ShelfSteps

/-!
On the map of shelves, an operation needs to know of the client only what it is heard to
say.  The store does the same to the files, whatever the client does elsewhere: it
succeeds when the operation on the map does, and leaves the files of the new map.
-/

namespace PatchShelf

/-- How an operation on a map of shelves ends: whether it succeeds, and with which map. -/
structure Verdict where
  succeeds : Bool
  shelves : SavedShelves

namespace SavedShelves

/-- Make a shelf of what the client is heard to give, and to take out again. -/
def create (shelves : SavedShelves) (request : CreateRequest) (diff revert : Option Text) :
    Verdict :=
  if shelves.contains request.name then ⟨false, shelves⟩
  else
    match diff with
    | none => ⟨false, shelves⟩
    | some patch =>
      if patch.isBlank then ⟨false, shelves⟩
      else if request.dryRun then ⟨true, shelves⟩
      else ⟨request.keepLocal || revert.isSome,
        shelves.insert request.name ⟨patch, request.logMessage⟩⟩

/-- Delete a shelf. -/
def delete (shelves : SavedShelves) (name : Text) (dryRun : Bool) : Verdict :=
  if shelves.contains name then ⟨true, if dryRun then shelves else shelves.erase name⟩
  else ⟨false, shelves⟩

/-- Delete a shelf that the client is heard to have applied. -/
def apply (shelves : SavedShelves) (name : Text) (keepLocal dryRun : Bool)
    (patched : Option Text) : Verdict :=
  if patched.isSome then shelves.delete name (dryRun || keepLocal) else ⟨false, shelves⟩

end SavedShelves

namespace WorkingCopyStore

open Activity (calls)

instance (settings : WorkingCopyStore) (machine : Machine) (root : Path) (subcommand : Text)
    (arguments : List Text) : Decidable (settings.CanRun machine root subcommand arguments) :=
  inferInstanceAs (Decidable (machine.CanCall _ _ _))

/-- What the client is heard to say when it is called next: its output, unless it cannot be
run or fails. -/
def heard (settings : WorkingCopyStore) (machine : Machine) (root : Path) (subcommand : Text)
    (arguments : List Text) : Option Text :=
  if settings.CanRun machine root subcommand arguments ∧ (settings.reply machine).status = 0 then
    some (settings.captured machine)
  else none

/-- A program leaves the directory of shelves alone and does not take the root away. -/
structure Spares (settings : WorkingCopyStore) (root : Path) (old new : FileTree) : Prop where
  shelves : Untouched (settings.shelvesPath root) old new
  root : ∀ location, root = Location.toPath location → IsRoot old location → IsRoot new location

/-- All programs in a trail of activities do. -/
def AllSpare (settings : WorkingCopyStore) (root : Path) (trail : List Activity) : Prop :=
  ∀ call ∈ calls trail, settings.Spares root call.found call.left

/-- The end of an operation is that of a verdict. -/
structure Follows {α : Type} (outcome : Outcome Activity Machine α) (directory : Path)
    (verdict : Verdict) : Prop where
  succeeds : (∃ value, outcome.result = .ok value) ↔ verdict.succeeds = true
  sound : outcome.world.Sound
  represents : Represents outcome.world.tree directory verdict.shelves

variable {settings : WorkingCopyStore} {root : Path} {machine : Machine}
  {shelves : SavedShelves} {subcommand : Text} {arguments : List Text}

/-! ### Hearing the client -/

/-- What is heard depends on the programs of the machine only. -/
theorem heard_of_programs {other : Machine} (same : machine.programs = other.programs) :
    settings.heard machine root subcommand arguments =
      settings.heard other root subcommand arguments := by
  have runs : settings.CanRun machine root subcommand arguments ↔
      settings.CanRun other root subcommand arguments :=
    ⟨Machine.CanCall.of_programs same, Machine.CanCall.of_programs same.symm⟩
  have replies : settings.reply machine = settings.reply other := by
    simp [reply, Machine.nextReply, Machine.coming, same]
  simp only [heard, captured, runs, replies]

theorem heard_of_closed (closed : ¬ settings.CanRun machine root subcommand arguments) :
    settings.heard machine root subcommand arguments = none :=
  if_neg fun both => closed both.1

theorem heard_of_bad (bad : (settings.reply machine).status ≠ 0) :
    settings.heard machine root subcommand arguments = none :=
  if_neg fun both => bad both.2

theorem heard_of_good (called : settings.CanRun machine root subcommand arguments)
    (good : (settings.reply machine).status = 0) :
    settings.heard machine root subcommand arguments = some (settings.captured machine) :=
  if_pos ⟨called, good⟩

/-- After a call that spares the shelves, they are the same. -/
theorem Represents.afterCall
    (represents : Represents machine.tree (settings.shelvesPath root) shelves)
    (spares : settings.Spares root machine.tree (machine.afterCall settings.program).tree) :
    (machine.afterCall settings.program).Sound ∧
      Represents (machine.afterCall settings.program).tree (settings.shelvesPath root) shelves :=
  ⟨.afterCall machine settings.program spares.shelves.sound,
    represents.untouched spares.shelves⟩

/-! ### Ends of operations -/

theorem follows_error {α : Type} {reason : Stop} {events : List Activity} {directory : Path}
    (sound : machine.Sound) (represents : Represents machine.tree directory shelves) :
    Follows (⟨.error reason, machine, events⟩ : Outcome Activity Machine α) directory
      ⟨false, shelves⟩ :=
  ⟨⟨nofun, nofun⟩, sound, represents⟩

theorem follows_ok {α : Type} {value : α} {events : List Activity} {directory : Path}
    (sound : machine.Sound) (represents : Represents machine.tree directory shelves) :
    Follows ⟨.ok value, machine, events⟩ directory ⟨true, shelves⟩ :=
  ⟨⟨fun _ => rfl, fun _ => ⟨value, rfl⟩⟩, sound, represents⟩

/-- What the trail shows does not matter. -/
theorem Follows.behind {α : Type} {outcome : Outcome Activity Machine α} {directory : Path}
    {verdict : Verdict} (follows : Follows outcome directory verdict) (events : List Activity) :
    Follows ⟨outcome.result, outcome.world, events⟩ directory verdict :=
  ⟨follows.succeeds, follows.sound, follows.represents⟩

/-! ### Deleting -/

section Delete

variable {name path : Text} {dryRun : Bool}

theorem follows_delete (found : ((findRoot path).run machine).result = .ok root)
    (sound : machine.Sound) (absolute : (settings.shelvesPath root).isAbsolute = true)
    (represents : Represents machine.tree (settings.shelvesPath root) shelves)
    (kept : KeptName name) :
    Follows ((settings.delete name path dryRun).run machine) (settings.shelvesPath root)
      (shelves.delete name dryRun) := by
  rw [delete, (reads_findRoot path).run_bind, found]
  simp only
  rw [Effect.run_bind, SavedShelves.delete]
  rcases existingPatch_cases represents absolute kept with
    ⟨known, reason, missed⟩ | ⟨known, existing⟩
  · rw [missed, known]
    exact follows_error sound represents
  · rw [existing, known]
    simp only [if_true]
    cases dryRun with
    | true => exact follows_ok sound represents
    | false =>
        obtain ⟨shelf, held⟩ := Option.isSome_iff_exists.1 known
        obtain ⟨new, removed, step⟩ := exists_run_removeFiles represents absolute sound.tree
          (represents.shelfName known) held
        simp only [Bool.false_eq_true, if_false]
        rw [Effect.run_bind, run_explaining, removed]
        exact follows_ok (sound.withTree step.sound step.keeps) step.represents

end Delete

/-! ### Making -/

section Create

variable {request : CreateRequest} {first : Text} {rest : List Text}

theorem run_prepare (targets : request.targets = first :: rest)
    (found : ((findRoot first).run machine).result = .ok root)
    (absolute : (settings.shelvesPath root).isAbsolute = true)
    (represents : Represents machine.tree (settings.shelvesPath root) shelves)
    (shelfName : ShelfName (settings.shelvesPath root) request.name) :
    (settings.prepare request).run machine =
      ⟨if shelves.contains request.name then .error (.failure (ShelfStore.shelfExists request.name))
        else .ok (root, (settings.shelvesPath root).child (request.name ++ Shelf.patchSuffix)),
        machine, []⟩ := by
  rw [prepare.eq_def, targets]
  simp only
  rw [(reads_findRoot first).run_bind, found]
  simp only
  rw [shelfName.shelfFile _ isSuffix_patch, (Effect.Reads.ofChecked _).run_bind,
    Effect.run_ofChecked]
  simp only [mapError_ok]
  rw [(Machine.reads_access _).run_bind, Machine.run_access,
    represents.isPresent_patch absolute shelfName]
  cases shelves.contains request.name with
  | false => rfl
  | true => rfl

/-- However taking the changes out ends, the shelves stay as they were saved. -/
theorem follows_takeOut {patch : Text} {outcome : Outcome Activity Machine Unit}
    (run : TakeOutRun settings root request patch machine outcome) (sound : machine.Sound)
    (represents : Represents machine.tree (settings.shelvesPath root) shelves)
    (spares : settings.AllSpare root outcome.events) :
    Follows outcome (settings.shelvesPath root) ⟨request.keepLocal ||
      (settings.heard machine root "revert" (selection request)).isSome, shelves⟩ := by
  cases run with
  | kept keeps =>
      rw [keeps]
      exact follows_ok sound represents
  | uncalled takes closed =>
      rw [takes, heard_of_closed closed]
      exact follows_error sound represents
  | failed takes called bad =>
      rw [takes, heard_of_bad bad]
      obtain ⟨soundAfter, after⟩ := represents.afterCall (spares _ List.mem_cons_self)
      exact follows_error soundAfter after
  | reverted takes called good =>
      rw [takes, heard_of_good called good]
      obtain ⟨soundAfter, after⟩ := represents.afterCall (spares _ List.mem_cons_self)
      exact follows_ok soundAfter after

/-- The patch of a new name is saved, unless the request only wants to see it. -/
theorem follows_save {patch : Text} {outcome : Outcome Activity Machine Unit}
    (run : SaveRun settings root
      ((settings.shelvesPath root).child (request.name ++ Shelf.patchSuffix)) request patch
      machine outcome)
    (sound : machine.Sound) (absolute : (settings.shelvesPath root).isAbsolute = true)
    (represents : Represents machine.tree (settings.shelvesPath root) shelves)
    (shelfName : ShelfName (settings.shelvesPath root) request.name)
    (absent : shelves.get? request.name = none)
    (valid : ∀ message, request.logMessage = some message → message.hasRaw = false)
    (spares : settings.AllSpare root outcome.events) :
    Follows outcome (settings.shelvesPath root) ⟨request.keepLocal ||
      (settings.heard machine root "revert" (selection request)).isSome,
      shelves.insert request.name ⟨patch, request.logMessage⟩⟩ := by
  obtain ⟨new, written, step⟩ := exists_run_writeFiles represents absolute sound.tree shelfName
    absent patch request.logMessage
  have logNamed := shelfName.shelfFile (settings.shelvesPath root) isSuffix_log
  cases run with
  | unencodable refused =>
      rw [encodeMessage_of_valid request.name valid] at refused
      cases refused
  | misnamed encoded refused =>
      rw [logNamed] at refused
      cases refused
  | unwritten encoded named refused cleaned =>
      obtain rfl := encodeMessage_eq_ok encoded
      obtain rfl := Except.ok.inj (logNamed.symm.trans named)
      rw [written] at refused
      cases refused
  | written encoded named writes takes =>
      obtain rfl := encodeMessage_eq_ok encoded
      obtain rfl := Except.ok.inj (logNamed.symm.trans named)
      obtain rfl := congrArg Outcome.world (written.symm.trans writes)
      have same : settings.heard machine root "revert" (selection request) =
          settings.heard (machine.withTree new) root "revert" (selection request) :=
        heard_of_programs rfl
      rw [same]
      exact follows_takeOut takes (sound.withTree step.sound step.keeps) step.represents spares

theorem follows_create (targets : request.targets = first :: rest)
    (found : ((findRoot first).run machine).result = .ok root) (sound : machine.Sound)
    (absolute : (settings.shelvesPath root).isAbsolute = true)
    (represents : Represents machine.tree (settings.shelvesPath root) shelves)
    (shelfName : ShelfName (settings.shelvesPath root) request.name)
    (valid : ∀ message, request.logMessage = some message → message.hasRaw = false)
    (spares : settings.AllSpare root ((settings.create request).run machine).events) :
    Follows ((settings.create request).run machine) (settings.shelvesPath root)
      (shelves.create request (settings.heard machine root "diff" (selection request))
        (settings.heard (machine.afterCall settings.program) root "revert"
          (selection request))) := by
  rw [create, Effect.run_bind, run_prepare targets found absolute represents shelfName] at spares ⊢
  rw [SavedShelves.create.eq_def]
  cases known : shelves.contains request.name with
  | true => exact follows_error sound represents
  | false =>
      have absent : shelves.get? request.name = none := by
        simpa [Dictionary.contains] using known
      rw [known] at spares
      simp only [Bool.false_eq_true, if_false, List.nil_append] at spares ⊢
      -- Each way in which the run can end is set beside the branch of the map for it.
      have run := captureRun settings root
        ((settings.shelvesPath root).child (request.name ++ Shelf.patchSuffix)) request machine
      generalize (settings.capture root ((settings.shelvesPath root).child
        (request.name ++ Shelf.patchSuffix)) request).run machine = outcome at run spares
      cases run with
      | uncalled closed =>
          rw [heard_of_closed closed]
          exact follows_error sound represents
      | failed called bad =>
          rw [heard_of_bad bad]
          obtain ⟨soundAfter, after⟩ := represents.afterCall (spares _ List.mem_cons_self)
          exact follows_error soundAfter after
      | blank called good blank =>
          rw [heard_of_good called good]
          obtain ⟨soundAfter, after⟩ := represents.afterCall (spares _ List.mem_cons_self)
          simp only [blank, if_true]
          exact follows_error soundAfter after
      | previewed called good filled dry =>
          rw [heard_of_good called good]
          obtain ⟨soundAfter, after⟩ := represents.afterCall (spares _ List.mem_cons_self)
          simp only [filled, dry, if_true, Bool.false_eq_true, if_false]
          exact follows_ok soundAfter after
      | saved called good filled wet saves =>
          rw [heard_of_good called good]
          simp only [filled, wet, Bool.false_eq_true, if_false]
          have later : settings.AllSpare root _ := fun call member => spares call (by
            rw [Activity.calls_append]
            exact List.mem_append_right _ member)
          obtain ⟨soundAfter, after⟩ := represents.afterCall (spares _ List.mem_cons_self)
          exact (follows_save saves soundAfter absolute after shelfName absent valid
            later).behind _

end Create

/-! ### Applying -/

section Apply

variable {name path : Text} {keepLocal dryRun : Bool}

/-- What is left to do once the client has applied the patch. -/
theorem follows_finishApply {location : Location} (rootIs : root = Location.toPath location)
    (isRoot : IsRoot machine.tree location) (sound : machine.Sound)
    (absolute : (settings.shelvesPath root).isAbsolute = true)
    (represents : Represents machine.tree (settings.shelvesPath root) shelves)
    (known : shelves.contains name = true) (kept : Bool) :
    Follows ((settings.finishApply root
        ((settings.shelvesPath root).child (name ++ Shelf.patchSuffix)) name kept).run machine)
      (settings.shelvesPath root) (shelves.delete name kept) := by
  have shelfName := represents.shelfName known
  obtain ⟨shelf, held⟩ := Option.isSome_iff_exists.1 known
  have content := represents.read_patch absolute shelfName held machine.directory
  rw [finishApply, Effect.run_bind, run_explaining, Machine.run_access, content]
  simp only [mapError_ok, worded_ok]
  rw [Effect.run_bind, Effect.run_emitAll]
  cases kept with
  | true =>
      rw [SavedShelves.delete, known]
      exact follows_ok sound represents
  | false =>
      have found := findRoot_of_isRoot sound.tree isRoot
      rw [← rootIs] at found
      exact (follows_delete found sound absolute represents shelfName.toKeptName).behind _

theorem follows_apply (found : ((findRoot path).run machine).result = .ok root)
    (sound : machine.Sound) (absolute : (settings.shelvesPath root).isAbsolute = true)
    (represents : Represents machine.tree (settings.shelvesPath root) shelves)
    (kept : KeptName name)
    (spares : settings.AllSpare root
      ((settings.apply name path keepLocal dryRun).run machine).events) :
    Follows ((settings.apply name path keepLocal dryRun).run machine) (settings.shelvesPath root)
      (shelves.apply name keepLocal dryRun (settings.heard machine root "patch"
        (patchArguments ((settings.shelvesPath root).child (name ++ Shelf.patchSuffix))
          dryRun))) := by
  obtain ⟨location, rootIs, isRoot⟩ := isRoot_of_findRoot sound found
  generalize inDirectory : (settings.shelvesPath root).child (name ++ Shelf.patchSuffix) = patchPath
  rw [apply, (reads_findRoot path).run_bind, found] at spares ⊢
  simp only at spares ⊢
  rw [Effect.run_bind] at spares ⊢
  rw [SavedShelves.apply]
  rcases existingPatch_cases represents absolute kept with
    ⟨known, reason, missed⟩ | ⟨known, existing⟩
  · have refused : shelves.delete name (dryRun || keepLocal) = ⟨false, shelves⟩ := by
      rw [SavedShelves.delete, known]
      rfl
    rw [missed, refused, ite_self]
    exact follows_error sound represents
  · rw [existing, inDirectory] at spares ⊢
    simp only [List.nil_append] at spares ⊢
    by_cases called : settings.CanRun machine root "patch" (patchArguments patchPath dryRun)
    · rw [Effect.run_bind, run_runClient called] at spares ⊢
      by_cases good : (settings.reply machine).status = 0
      · rw [heard_of_good called good]
        simp only [taken, if_pos good, Option.isSome_some, if_true] at spares ⊢
        have aside := spares (settings.clientCall machine root "patch" _) (by
          rw [Activity.calls_append]
          exact List.mem_append_left _ List.mem_cons_self)
        obtain ⟨soundAfter, after⟩ := represents.afterCall aside
        -- The client may have changed files, so the shelf is looked for in what it left.
        have finished := follows_finishApply rootIs (aside.root location rootIs isRoot) soundAfter
          absolute after known (dryRun || keepLocal)
        rw [inDirectory] at finished
        exact finished.behind _
      · rw [heard_of_bad good]
        simp only [taken, if_neg good] at spares ⊢
        have aside := spares (settings.clientCall machine root "patch" _) List.mem_cons_self
        obtain ⟨soundAfter, after⟩ := represents.afterCall aside
        exact follows_error soundAfter after
    · obtain ⟨reason, stopped⟩ := exists_run_runClient called
      rw [Effect.run_bind, stopped, heard_of_closed called]
      exact follows_error sound represents

end Apply

end WorkingCopyStore

end PatchShelf
