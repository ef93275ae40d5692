/-
Module: PatchShelf.Proofs.Store.Escapes
Purpose: What reaches the caller of the store unworded.
Main exports:
  WorkingCopyStore.stops_delete, WorkingCopyStore.stops_apply, WorkingCopyStore.stops_create,
  WorkingCopyStore.stops_list, WorkingCopyStore.Escape,
  WorkingCopyStore.refused_or_escape_of_stopped
-/
import PatchShelf.Proofs.Store.Refusals

/-!
Each operation is followed from its first step to its last.  It stops with a failure of the
store, or because the system does not take a path that it asks about, because the working
directory is lost, because a file that is listed has a time outside the calendar, because a
cleanup fails, or because a changelist holds a NUL.
-/

namespace PatchShelf

namespace WorkingCopyStore

open Effect (StopsOnly)
open Machine (HoldsNull IsSystem Operation)

section Operations

variable {settings : WorkingCopyStore} {machine : Machine}

/-! ### Removing and applying -/

/-- To look for a shelf is refused in words, or stops at its long path. -/
theorem stops_existingPatch {start name : Text} {root : Path}
    (rooted : ((findRoot start).run machine).result = .ok root) :
    StopsOnly (Refused (settings.LongPath machine start (some name)))
      (existingPatch (settings.shelvesPath root) name) machine := by
  refine .bind_reads (.ofChecked _) stops_shelfFile fun path spelled => ?_
  rw [Effect.run_ofChecked] at spelled
  refine .bind_reads (Machine.reads_access _) ?_ fun there _ => ?_
  · exact stops_access fun fault asked =>
      .inr (longPath_of_asked (.patch rooted rfl (mapError_eq_ok_iff.1 spelled)) asked)
  · cases there with
    | true => exact .pure _
    | false => exact .fail (refused_failure _)

/-- A delete is refused in words, stops at a long path, or has lost its start. -/
theorem stops_delete (clean : settings.shelvesDirectory.holds '\x00' = false) (name root : Text)
    (dryRun : Bool) :
    StopsOnly (Refused fun reason =>
        settings.LongPath machine root (some name) reason ∨ IsLost machine root reason)
      (settings.delete name root dryRun) machine := by
  refine .bind_reads (reads_findRoot root) (stops_findRoot settings root _) fun found rooted => ?_
  refine .bind_reads (reads_existingPatch _ _) ?_ fun path looked => ?_
  · exact (stops_existingPatch rooted).weaken (Refused.imp fun _ long => .inl long)
  · obtain ⟨stem, isStem, rfl, -⟩ := exists_of_existingPatch looked
    have directoryClean := noNull_shelvesPath clean rooted
    cases dryRun with
    | true => exact .emitAll _
    | false =>
        exact .bind (stops_explaining (stops_removeFiles isStem directoryClean)) fun _ _ =>
          .emitAll _

/-- The path of a root is not read in the working directory. -/
theorem not_isLost_of_findRoot {before : Machine} {path : Text} {root : Path}
    (found : ((findRoot path).run before).result = .ok root) (reason : Stop) :
    ¬ IsLost machine root.toText reason := by
  rintro ⟨relative, -, -⟩
  obtain ⟨location, inside, nearest, -, -, -, rfl⟩ := exists_of_findRoot found
  obtain ⟨rest, begins⟩ := Path.exists_toText_of_isAbsolute (Location.isAbsolute_toPath nearest)
  rw [Path.isAbsolute, Path.ofText, begins, Path.anchorOf.eq_def] at relative
  simp only at relative
  split at relative
  · simp at relative
  · simp at relative
  · simp at relative
  · rename_i unlike
    exact unlike _ rfl

/-- The end of an apply is refused in words, or stops at a long path. -/
theorem stops_finishApply (clean : settings.shelvesDirectory.holds '\x00' = false)
    {before : Machine} {path name : Text} {root patchPath : Path} (kept : Bool)
    (found : ((findRoot path).run before).result = .ok root)
    (patchClean : patchPath.toText.holds '\x00' = false) :
    StopsOnly (Refused (settings.LongPath machine root.toText (some name)))
      (settings.finishApply root patchPath name kept) machine := by
  refine .bind (stops_explaining (stops_access fun fault refused => ?_)) fun content _ => ?_
  · obtain ⟨errno, rfl⟩ := FileTree.exists_system_of_read patchClean refused
    exact .inl ⟨_, _, rfl⟩
  · rw [(reads_explaining _ (Machine.reads_access _) machine).1]
    refine .bind_emitAll ?_
    cases kept with
    | true => exact .pure _
    | false =>
        refine (stops_delete clean name root.toText false).weaken (Refused.imp ?_)
        rintro reason (long | lost)
        · exact long
        · exact absurd lost (not_isLost_of_findRoot found reason)

/-- Once the client has applied a patch, the shelf is deleted from the root that was found; the
system does not take a path that this asks about. -/
def LongPathAfter (settings : WorkingCopyStore) (machine : Machine) (start name : Text)
    (reason : Stop) : Prop :=
  ∃ root, ((findRoot start).run machine).result = .ok root ∧
    settings.LongPath (machine.afterCall settings.program) root.toText (some name) reason

/-- A call that succeeds leaves what the client leaves. -/
theorem world_runClient_of_ok {root : Path} {subcommand : Text} {arguments : List Text}
    {output : Text}
    (taken : ((settings.runClient root subcommand arguments).run machine).result = .ok output) :
    ((settings.runClient root subcommand arguments).run machine).world =
      machine.afterCall settings.program := by
  by_cases called : settings.CanRun machine root subcommand arguments
  · rw [run_runClient called]
  · obtain ⟨reason, unmade⟩ := exists_run_runClient called
    rw [unmade] at taken
    cases taken

/-- An apply stops as a delete does, or at a path that got too long on the way. -/
theorem stops_apply (programClean : settings.program.holds '\x00' = false)
    (clean : settings.shelvesDirectory.holds '\x00' = false) (name root : Text)
    (keepLocal dryRun : Bool) :
    StopsOnly (Refused fun reason =>
        (settings.LongPath machine root (some name) reason ∨ IsLost machine root reason) ∨
          settings.LongPathAfter machine root name reason)
      (settings.apply name root keepLocal dryRun) machine := by
  refine .bind_reads (reads_findRoot root) ?_ fun found rooted => ?_
  · exact (stops_findRoot settings root _).weaken (Refused.imp fun _ early => .inl early)
  refine .bind_reads (reads_existingPatch _ _) ?_ fun path looked => ?_
  · exact (stops_existingPatch rooted).weaken (Refused.imp fun _ long => .inl (.inl long))
  · obtain ⟨stem, isStem, rfl, isFile⟩ := exists_of_existingPatch looked
    have patchClean := (FileTree.fits_of_isFile isFile).noNull
    refine .bind ?_ fun output taken => ?_
    · refine (stops_runClient settings found "patch" _).weaken (Refused.imp ?_)
      rintro reason ⟨null, -⟩
      have flag : Text.holds "--dry-run" '\x00' = false := by decide
      have own : Text.holds "patch" '\x00' = false := by decide
      rw [patchArguments] at null
      cases dryRun with
      | false => simp [programClean, own, patchClean] at null
      | true => simp [programClean, own, patchClean, flag] at null
    · refine (stops_finishApply clean _ rooted patchClean).weaken (Refused.imp ?_)
      rw [world_runClient_of_ok taken]
      exact fun _ long => .inr ⟨found, rooted, long⟩

/-! ### Making -/

variable {request : CreateRequest} {root patchPath : Path}

/-- What can stop a request once the client gave a patch. -/
def IsUnsaved (settings : WorkingCopyStore) (request : CreateRequest) (patchPath : Path)
    (reason : Stop) : Prop :=
  IsStuck patchPath reason ∨
    ∃ subcommand : Text, subcommand.holds '\x00' = false ∧
      HoldsNull (settings.program :: subcommand :: selection request) reason

/-- Taking the changes out is refused in words. -/
theorem stops_takeOut (patch : Text) :
    StopsOnly (Refused (settings.IsUnsaved request patchPath))
      (settings.takeOut root request patch) machine := by
  rw [takeOut]
  cases request.keepLocal with
  | true => exact .emit _
  | false =>
      refine .bind ?_ fun _ _ => .bind (.emitAll _) fun _ _ => .emit _
      exact (stops_runClient settings root "revert" _).weaken
        (Refused.imp fun _ null => .inr ⟨"revert", by decide, null⟩)

/-- To save the patch is refused in words, or cannot be undone. -/
theorem stops_savePatch (patch : Text)
    (directoryClean : (settings.shelvesPath root).toText.holds '\x00' = false)
    (named : shelfFile (settings.shelvesPath root) request.name Shelf.patchSuffix =
      .ok patchPath) :
    StopsOnly (Refused (settings.IsUnsaved request patchPath))
      (settings.savePatch root patchPath request patch) machine := by
  obtain ⟨stem, isStem, rfl⟩ := exists_isStem isSuffix_patch named
  have patchClean : ((settings.shelvesPath root).child (stem ++ Shelf.patchSuffix)).toText.holds
      '\x00' = false := isStem.noNull_child directoryClean (by decide)
  refine .bind_reads (.ofChecked _) ?_ fun message _ => ?_
  · refine .ofChecked fun failure refused => ?_
    obtain ⟨shown, rfl⟩ := encodeMessage_error refused
    exact refused_failure shown
  · refine .bind_reads (.ofChecked _) stops_shelfFile fun logPath logNamed => ?_
    rw [Effect.run_ofChecked, isStem.shelfFile _ isSuffix_log] at logNamed
    obtain rfl := Except.ok.inj logNamed
    refine .bind (stops_explainingAfter ?_ ?_) fun _ _ => stops_takeOut patch
    · exact (stops_writeFiles directoryClean patchClean
        (isStem.noNull_child directoryClean (by decide)) _ _).weaken fun _ system => .inl system
    · exact (stops_unlinkIfPresent patchClean).weaken fun _ stuck => .inr (.inl stuck)

/-- To capture a patch is refused in words, or leaves a file that cannot be taken away. -/
theorem stops_capture
    (directoryClean : (settings.shelvesPath root).toText.holds '\x00' = false)
    (named : shelfFile (settings.shelvesPath root) request.name Shelf.patchSuffix =
      .ok patchPath) :
    StopsOnly (Refused (settings.IsUnsaved request patchPath))
      (settings.capture root patchPath request) machine := by
  refine .bind ?_ fun patch _ => ?_
  · exact (stops_runClient settings root "diff" _).weaken
      (Refused.imp fun _ null => .inr ⟨"diff", by decide, null⟩)
  · split
    · exact .fail (refused_failure _)
    · refine .bind (.emitAll _) fun _ _ => ?_
      split
      · exact .emit _
      · exact stops_savePatch patch directoryClean named

/-- Before that, it is the root and the name that may stop a create. -/
theorem stops_prepare {first : Text} {rest : List Text}
    (targets : request.targets = first :: rest) :
    StopsOnly (Refused fun reason =>
        settings.LongPath machine first (some request.name) reason ∨ IsLost machine first reason)
      (settings.prepare request) machine := by
  rw [prepare.eq_def, targets]
  refine .bind_reads (reads_findRoot first) (stops_findRoot settings first _) fun root rooted => ?_
  refine .bind_reads (.ofChecked _) stops_shelfFile fun patchPath spelled => ?_
  rw [Effect.run_ofChecked] at spelled
  refine .bind_reads (Machine.reads_access _) ?_ fun there _ => ?_
  · exact stops_access fun fault asked =>
      .inr (.inl (longPath_of_asked (.patch rooted rfl (mapError_eq_ok_iff.1 spelled)) asked))
  · cases there with
    | true => exact .fail (refused_failure _)
    | false => exact .pure _

/-- A create stops as its parts do, in their order. -/
theorem stops_create (clean : settings.shelvesDirectory.holds '\x00' = false) {first : Text}
    {rest : List Text} (targets : request.targets = first :: rest) :
    StopsOnly (Refused fun reason =>
        (settings.LongPath machine first (some request.name) reason ∨
          IsLost machine first reason) ∨
        ∃ directory path, settings.directory? request machine = some directory ∧
          shelfFile directory request.name Shelf.patchSuffix = .ok path ∧
          settings.IsUnsaved request path reason)
      (settings.create request) machine := by
  refine .bind_reads (reads_prepare settings request) ?_ fun pair ended => ?_
  · exact (stops_prepare targets).weaken (Refused.imp fun _ early => .inl early)
  · obtain ⟨root, path⟩ := pair
    have prepared := prepared_of_ok ended
    obtain ⟨start, others, -, found⟩ := prepared.inside
    exact (stops_capture (noNull_shelvesPath clean found) prepared.named).weaken
      (Refused.imp fun _ unsaved =>
        .inr ⟨_, path, directory?_of_prepared prepared, prepared.named, unsaved⟩)

/-! ### Listing -/

/-- The time of the file of a key is no moment of the calendar, and this is told as no error of
the system. -/
def IsUndated (machine : Machine) (directory : Path) (key : Text) (reason : Stop) : Prop :=
  ∃ status fault, machine.tree.status machine.directory (directory.child key) = .ok status ∧
    status.modified.read = .error fault ∧ reason = .fault fault ∧ ¬ IsSystem reason

/-- In the directory of shelves there is such a file. -/
def UndatedIn (settings : WorkingCopyStore) (machine : Machine) (start : Text)
    (reason : Stop) : Prop :=
  ∃ root names key, ((findRoot start).run machine).result = .ok root ∧
    machine.tree.namesAt machine.directory (settings.shelvesPath root) = .ok names ∧
      key ∈ names.map Utf8.decodeEscaped ∧
        IsUndated machine (settings.shelvesPath root) key reason

/-- A log is read, or the system refuses. -/
theorem stops_readMessage (directory : Path) (name : Text) :
    StopsOnly IsSystem (readMessage directory name) machine := by
  refine .bind_reads (Machine.reads_access _) ?_ fun there asked => ?_
  · refine stops_access fun fault asked => ?_
    obtain ⟨shown, long⟩ := isLongName_of_asked asked
    exact ⟨_, shown, long⟩
  · cases there with
    | false => exact .pure _
    | true =>
        refine .bind_reads (Machine.reads_access _) ?_ fun content _ => .pure _
        refine stops_access fun fault refused => ?_
        rw [Machine.run_access] at asked
        cases found : machine.tree.isFile machine.directory
            (directory / Path.ofText (name ++ Shelf.logSuffix)) with
        | error other =>
            rw [found] at asked
            cases asked
        | ok answer =>
            rw [found] at asked
            obtain rfl := Except.ok.inj asked
            obtain ⟨errno, rfl⟩ :=
              FileTree.exists_system_of_read (FileTree.fits_of_isFile found).noNull refused
            exact ⟨_, _, rfl⟩

/-- One record after the other is read; what the system does not refuse is a time that is out
of the calendar. -/
theorem stops_readRecords {directory : Path} (clean : directory.toText.holds '\x00' = false)
    {keys : List Text} (keysClean : ∀ key ∈ keys, key.holds '\x00' = false) (shelves : Shelves) :
    StopsOnly (fun reason => IsSystem reason ∨ ∃ key ∈ keys, IsUndated machine directory key reason)
      (readRecords directory keys shelves) machine := by
  induction keys generalizing shelves with
  | nil => exact .pure _
  | cons key rest ih =>
      have later (shelves : Shelves) : StopsOnly
          (fun reason => IsSystem reason ∨
            ∃ other ∈ key :: rest, IsUndated machine directory other reason)
          (readRecords directory rest shelves) machine := by
        refine (ih (fun other member => keysClean other (List.mem_cons_of_mem _ member))
          shelves).weaken fun reason => Or.imp_right ?_
        rintro ⟨other, member, undated⟩
        exact ⟨other, List.mem_cons_of_mem _ member, undated⟩
      rw [readRecords]
      split
      · exact .bind (.emit _) fun _ _ => later shelves
      · rename_i filled
        refine .bind_reads (Machine.reads_access _) ?_ fun status stated => ?_
        · refine stops_access fun fault refused => ?_
          have path : (directory.child key).toText.holds '\x00' = false :=
            Path.noNull_child clean (keysClean key List.mem_cons_self)
          obtain ⟨errno, rfl⟩ := FileTree.exists_system_of_status path refused
          exact .inl ⟨_, _, rfl⟩
        · refine .bind_reads (.ofAccess _) ?_ fun modified _ => ?_
          · refine .ofAccess fun fault late => ?_
            rw [Machine.run_access] at stated
            exact (em (IsSystem (.fault fault))).imp_right fun unworded =>
              ⟨key, List.mem_cons_self, status, fault, mapError_eq_ok_iff.1 stated, late, rfl,
                unworded⟩
          · refine .bind_reads (reads_readMessage _ _) ?_ fun message _ => ?_
            · exact (stops_readMessage _ _).weaken fun _ system => .inl system
            · refine .bind_reads (.ofAccess _) ?_ fun record _ => later _
              rw [ShelfRecord.make, dif_pos (by simpa using filled), if_neg (by omega)]
              refine .ofAccess fun fault refused => ?_
              cases refused

/-- What is read off the directory of shelves holds no NUL, if no name in the tree does. -/
theorem noNull_of_namesAt {tree : FileTree} (nullFree : tree.NullFree) {base : Location}
    {path : Path} {names : List FileName} (read : tree.namesAt base path = .ok names) :
    ∀ key ∈ (names.map Utf8.decodeEscaped).filter (·.endsWith Shelf.patchSuffix),
      key.holds '\x00' = false := by
  intro key member
  obtain ⟨name, inside, rfl⟩ := List.mem_map.1 (List.mem_filter.1 member).1
  rw [FileTree.namesAt] at read
  split at read
  · rename_i place _
    obtain rfl := Except.ok.inj read
    have clean := nullFree name place ((tree.mem_names_iff place name).1 inside)
    have null : 0 ∈ Utf8.encode (Utf8.decodeEscaped name) ↔
        Glyph.char '\x00' ∈ Utf8.decodeEscaped name := Utf8.mem_encode_ascii (by decide) _
    rw [← Bool.not_eq_true, Text.holds_iff, ← null, Utf8.encode_decodeEscaped]
    exact clean
  · cases read
  · cases read
  · cases read

/-- A listing is refused in words, stops at a long path, has lost its start, or has a file without a
time. -/
theorem stops_list (clean : settings.shelvesDirectory.holds '\x00' = false)
    (nullFree : machine.tree.NullFree) (root : Text) :
    StopsOnly (Refused fun reason =>
        (settings.LongPath machine root none reason ∨ IsLost machine root reason) ∨
          settings.UndatedIn machine root reason) (settings.list root) machine := by
  refine .bind_reads (reads_findRoot root) ?_ fun found rooted => ?_
  · exact (stops_findRoot settings root _).weaken (Refused.imp fun _ early => .inl early)
  · have directoryClean := noNull_shelvesPath clean rooted
    refine .bind_reads (Machine.reads_access _) ?_ fun there _ => ?_
    · exact stops_access fun fault asked =>
        .inr (.inl (.inl (longPath_of_asked (.shelves rooted) asked)))
    · cases there with
      | false => exact .pure _
      | true =>
          refine stops_explaining (.bind_reads (Machine.reads_access _) ?_ fun names read => ?_)
          · refine stops_access fun fault refused => ?_
            obtain ⟨errno, rfl⟩ := FileTree.exists_system_of_namesAt directoryClean refused
            exact .inl ⟨_, _, rfl⟩
          · rw [Machine.run_access] at read
            cases listed : machine.tree.namesAt machine.directory (settings.shelvesPath found) with
            | error fault =>
                rw [listed] at read
                cases read
            | ok given =>
                rw [listed] at read
                obtain rfl := Except.ok.inj read
                refine (stops_readRecords directoryClean (noNull_of_namesAt nullFree listed)
                  _).weaken ?_
                rintro reason (system | ⟨key, member, undated⟩)
                · exact .inl system
                · exact .inr (.inr (.inr
                    ⟨found, given, key, rooted, listed, (List.mem_filter.1 member).1, undated⟩))

end Operations

/-! ### What escapes -/

/-- The reasons that reach the caller of the store as they are, and where they come from. -/
inductive Escape (settings : WorkingCopyStore) (machine : Machine) : StoreCall → Stop → Prop
  | longPath {call : StoreCall} {start : Text} {path : Path} (begins : call.path? = some start)
      (asks : settings.Asks machine start call.name? path) (long : TooLong machine path) :
      Escape settings machine call (.fault (.system .nameTooLong path.toText))
  | longPathAfter {name start : Text} {keepLocal dryRun : Bool} {root path : Path}
      (rooted : ((findRoot start).run machine).result = .ok root)
      (asks : settings.Asks (machine.afterCall settings.program) root.toText (some name) path)
      (long : TooLong (machine.afterCall settings.program) path) :
      Escape settings machine (.apply name start keepLocal dryRun)
        (.fault (.system .nameTooLong path.toText))
  | lostDirectory {call : StoreCall} {start : Text} (begins : call.path? = some start)
      (relative : (Path.ofText start).isAbsolute = false)
      (lost : machine.directory.isLost = true) :
      Escape settings machine call (.fault .lostDirectory)
  | undated {start key : Text} {root : Path} {names : List FileName} {status : FileStatus}
      {fault : Fault} (rooted : ((findRoot start).run machine).result = .ok root)
      (read : machine.tree.namesAt machine.directory (settings.shelvesPath root) = .ok names)
      (listed : key ∈ names.map Utf8.decodeEscaped)
      (stated : machine.tree.status machine.directory ((settings.shelvesPath root).child key) =
        .ok status)
      (late : status.modified.read = .error fault) (unworded : ¬ IsSystem (.fault fault)) :
      Escape settings machine (.list start) (.fault fault)
  | uncleaned {request : CreateRequest} {directory patchPath : Path} {errno : Errno}
      (asked : settings.directory? request machine = some directory)
      (named : shelfFile directory request.name Shelf.patchSuffix = .ok patchPath)
      (stuck : errno ≠ .notFound) :
      Escape settings machine (.create request) (.fault (.system errno patchPath.toText))
  | nullInChangelist {request : CreateRequest} {changelist : Text}
      (member : changelist ∈ request.changelists) (null : changelist.holds '\x00' = true) :
      Escape settings machine (.create request) (.fault .embeddedNull)

/-- What stops a call early is an escape of that call. -/
theorem Escape.of_start {settings : WorkingCopyStore} {machine : Machine} {call : StoreCall}
    {start : Text} {shelf : Option Text} (begins : call.path? = some start)
    (named : call.name? = shelf) {reason : Stop}
    (early : settings.LongPath machine start shelf reason ∨ IsLost machine start reason) :
    Escape settings machine call reason := by
  subst named
  rcases early with ⟨path, asks, long, rfl⟩ | ⟨relative, lost, rfl⟩
  · exact .longPath begins asks long
  · exact .lostDirectory begins relative lost

/-- Among the arguments of a call only a changelist can hold a NUL, if neither the program
nor a target does. -/
theorem exists_changelist_of_holdsNull {settings : WorkingCopyStore} {request : CreateRequest}
    (programClean : settings.program.holds '\x00' = false)
    (targetsClean : ∀ target ∈ request.targets, target.holds '\x00' = false) {subcommand : Text}
    (own : subcommand.holds '\x00' = false) {reason : Stop}
    (null : HoldsNull (settings.program :: subcommand :: selection request) reason) :
    (∃ changelist ∈ request.changelists, changelist.holds '\x00' = true) ∧
      reason = .fault .embeddedNull := by
  obtain ⟨held, rfl⟩ := null
  refine ⟨?_, rfl⟩
  obtain ⟨argument, member, holds⟩ := List.any_eq_true.1 held
  have unlike {clean : Text} (free : clean.holds '\x00' = false) : argument ≠ clean := by
    rintro rfl
    rw [free] at holds
    cases holds
  rcases List.mem_cons.1 member with same | member
  · exact absurd same (unlike programClean)
  · rcases List.mem_cons.1 member with same | member
    · exact absurd same (unlike own)
    · rcases List.mem_append.1 member with chosen | target
      · rcases List.mem_cons.1 chosen with same | chosen
        · exact absurd same (unlike (by decide))
        · rcases List.mem_cons.1 chosen with same | chosen
          · exact absurd same (unlike (by cases request.depth <;> decide))
          · obtain ⟨changelist, inside, either⟩ := List.mem_flatMap.1 chosen
            rcases List.mem_cons.1 either with same | either
            · exact absurd same (unlike (by decide))
            · obtain rfl := List.mem_singleton.1 either
              exact ⟨_, inside, holds⟩
      · exact absurd (targetsClean argument target) (by simp [holds])

/-- Whatever the files are, whatever the client says and does, the store stops with a failure
of its own or with one of the reasons that escape. -/
theorem refused_or_escape_of_stopped (settings : WorkingCopyStore)
    (programClean : settings.program.holds '\x00' = false)
    (directoryClean : settings.shelvesDirectory.holds '\x00' = false) (call : StoreCall)
    (targeted : ∀ request, call = .create request →
      request.targets ≠ [] ∧ ∀ target ∈ request.targets, target.holds '\x00' = false)
    (machine : Machine) (nullFree : machine.tree.NullFree) {reason : Stop}
    (stopped : ((settings.perform call).run machine).result = .error reason) :
    (∃ message, reason = .failure (ShelfStore.failure message)) ∨
      Escape settings machine call reason := by
  cases call with
  | list root =>
      have stops : StopsOnly _ (settings.perform (.list root)) machine :=
        .bind (stops_list directoryClean nullFree root) fun records _ => .pure _
      refine (stops reason stopped).imp_right ?_
      rintro (early | ⟨found, names, key, rooted, read, listed, status, fault, stated, late, rfl,
        unworded⟩)
      · exact .of_start rfl rfl early
      · exact .undated rooted read listed stated late unworded
  | create request =>
      obtain ⟨nonempty, targetsClean⟩ := targeted request rfl
      obtain ⟨first, rest, targets⟩ := List.exists_cons_of_ne_nil nonempty
      have stops : StopsOnly _ (settings.perform (.create request)) machine :=
        .bind (stops_create directoryClean targets) fun _ _ => .pure _
      refine (stops reason stopped).imp_right ?_
      rintro (early | ⟨directory, path, asked, named, stuck | ⟨subcommand, own, null⟩⟩)
      · exact .of_start (by rw [StoreCall.path?, targets]; rfl) rfl early
      · obtain ⟨errno, other, rfl⟩ := stuck
        exact .uncleaned asked named other
      · obtain ⟨⟨changelist, member, held⟩, rfl⟩ :=
          exists_changelist_of_holdsNull programClean targetsClean own null
        exact .nullInChangelist member held
  | delete name root dryRun =>
      have stops : StopsOnly _ (settings.perform (.delete name root dryRun)) machine :=
        .bind (stops_delete directoryClean name root dryRun) fun _ _ => .pure _
      exact (stops reason stopped).imp_right (.of_start rfl rfl)
  | apply name root keepLocal dryRun =>
      have stops : StopsOnly _ (settings.perform (.apply name root keepLocal dryRun)) machine :=
        .bind (stops_apply programClean directoryClean name root keepLocal dryRun)
          fun _ _ => .pure _
      refine (stops reason stopped).imp_right ?_
      rintro (early | ⟨found, rooted, path, asks, untaken, rfl⟩)
      · exact .of_start rfl rfl early
      · exact .longPathAfter rooted asks untaken

/-- The machine with a file in the place of the directory of shelves. -/
def occupiedMachine : Machine :=
  { plainMachine (Utf8.encode "Index: a\n+x\n") with
    tree := (plainMachine []).tree.put [Utf8.encode "shelves", Utf8.encode ".svn",
      Utf8.encode "wc"] (.file [] .epoch) }

theorem escape_of_occupied :
    ((plainSettings.perform (.create (plainRequest none))).run occupiedMachine).result =
        .error (.fault (.system .notDirectory "/wc/.svn/shelves/n.patch")) ∧
      Escape plainSettings occupiedMachine (.create (plainRequest none))
        (.fault (.system .notDirectory "/wc/.svn/shelves/n.patch")) := by
  have stopped : ((plainSettings.perform (.create (plainRequest none))).run
      occupiedMachine).result =
        .error (.fault (.system .notDirectory "/wc/.svn/shelves/n.patch")) := by decide +kernel
  have clean : ∀ location ∈ occupiedMachine.tree.entries.keys, ∀ name ∈ location, 0 ∉ name := by
    decide +kernel
  refine ⟨stopped, (refused_or_escape_of_stopped plainSettings (by decide) (by decide) _ ?_
    occupiedMachine (FileTree.nullFree_of_entries clean) stopped).resolve_left nofun⟩
  intro request same
  obtain rfl := StoreCall.create.inj same
  exact ⟨by decide, by decide⟩

end WorkingCopyStore

end PatchShelf
