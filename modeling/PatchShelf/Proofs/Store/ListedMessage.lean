/-
Module: PatchShelf.Proofs.Store.ListedMessage
Purpose: The log message with which a new shelf is listed.
Main exports:
  WorkingCopyStore.messageAt, WorkingCopyStore.message_of_readMessage,
  WorkingCopyStore.Creation.keptPatch, WorkingCopyStore.listed_message
-/
import PatchShelf.Proofs.Store.CreatedShelf
import PatchShelf.Proofs.Store.FoundShelf
import PatchShelf.Proofs.Store.ListedRecords

/-!
A listing shows the text of the log file that stands beside a patch file.  A request with
a log message writes that file, so its shelf is listed with the message.  A request without
one does not touch the file: if something was left there, the new shelf is listed with it.
-/

namespace PatchShelf

namespace WorkingCopyStore

open Activity (calls)

variable {settings : WorkingCopyStore} {request : CreateRequest} {machine : Machine}
  {directory : Path}

/-- The log message that the file behind a path holds, none if there is no file. -/
def messageAt (tree : FileTree) (path : Path) : Text :=
  match tree.read [] path with
  | .ok content => (Utf8.decodeReplaced content).uniformLines.strip
  | .error _ => []

theorem messageAt_of_read {tree : FileTree} {path : Path} {content : Bytes}
    (reads : tree.read [] path = .ok content) :
    messageAt tree path = (Utf8.decodeReplaced content).uniformLines.strip := by
  rw [messageAt, reads]

/-- Paths that are spelled with the same bytes lead to the same place. -/
theorem locate_eq_ok_iff_of_encode {tree : FileTree} {one two : Path}
    (same : Utf8.encode one.toText = Utf8.encode two.toText) (spot : Spot) :
    tree.locate [] .target one = .ok spot ↔ tree.locate [] .target two = .ok spot := by
  have nulls : one.toText.holds '\x00' = two.toText.holds '\x00' := by
    have byte (text : Text) := Utf8.mem_encode_ascii (show (0 : UInt8).toNat < 0x80 by decide) text
    rw [Bool.eq_iff_iff, Text.holds_iff, Text.holds_iff]
    exact (byte _).symm.trans (same ▸ byte _)
  rw [FileTree.locate, FileTree.locate, FileTree.locateText, FileTree.locateText, nulls, same]
  split
  · simp
  · rw [mapError_eq_ok_iff, mapError_eq_ok_iff]

theorem messageAt_of_encode {tree : FileTree} {one two : Path}
    (same : Utf8.encode one.toText = Utf8.encode two.toText) :
    messageAt tree one = messageAt tree two := by
  have reads (content : Bytes) :
      tree.read [] one = .ok content ↔ tree.read [] two = .ok content := by
    simp only [FileTree.read_eq_ok_iff, locate_eq_ok_iff_of_encode same]
  rw [messageAt, messageAt]
  cases first : tree.read [] one with
  | ok content => rw [(reads content).1 first]
  | error fault =>
      cases second : tree.read [] two with
      | ok content => rw [(reads content).2 second] at first; cases first
      | error other => rfl

/-- The message of a record is what the path of the log file leads to. -/
theorem message_of_readMessage {name message : Text}
    (absolute : (directory / Path.ofText (name ++ Shelf.logSuffix)).isAbsolute = true)
    (read : ((readMessage directory name).run machine).result = .ok message) :
    message = messageAt machine.tree (directory / Path.ofText (name ++ Shelf.logSuffix)) := by
  have base := FileTree.read_base machine.tree machine.directory absolute
  rw [readMessage] at read
  obtain ⟨there, known, read⟩ := (Machine.reads_access _).exists_of_bind_ok read
  rw [Machine.run_access] at known
  have isFile := mapError_eq_ok_iff.1 known
  cases there with
  | true =>
      simp only [if_true] at read
      obtain ⟨content, found, read⟩ := (Machine.reads_access _).exists_of_bind_ok read
      rw [Machine.run_access] at found
      rw [messageAt_of_read (base ▸ mapError_eq_ok_iff.1 found)]
      exact (Except.ok.inj read).symm
  | false =>
      obtain rfl := Except.ok.inj read
      rw [messageAt]
      split
      · rename_i content reads
        rw [FileTree.isFile_of_read (base.trans reads)] at isFile
        cases isFile
      · rfl

/-! ### What was there before -/

theorem not_located_of_absent {tree : FileTree} {base : Location} {path : Path}
    (rooted : path.isAbsolute = true) (absent : tree.isPresent base path = .ok false)
    (location : Location) (entry : Entry) :
    tree.locate [] .target path ≠ .ok (.found location entry) := by
  intro located
  rw [FileTree.isPresent, FileTree.probe, FileTree.locate_base _ _ _ rooted, located] at absent
  cases absent

/-- A file is not touched when another is made that was not there. -/
theorem locate_of_write_absent {old new : FileTree} (sound : old.Sound) {one two : Path}
    {location base : Location} {content other : Bytes} {moment modified : FileTime}
    (rooted : one.isAbsolute = true) (otherRooted : two.isAbsolute = true)
    (located : old.locate [] .target one = .ok (.found location (.file content modified)))
    (absent : ∀ place entry, old.locate [] .target two ≠ .ok (.found place entry))
    (written : old.write base moment two other = .ok new) :
    new.locate [] .target one = .ok (.found location (.file content modified)) := by
  obtain ⟨second, reached, noWay, rfl⟩ :=
    FileTree.exists_of_write sound.grounded otherRooted written
  refine locate_of_put_of_ne sound _ rooted located noWay ?_
  rintro rfl
  -- without the new content, the other path would have led to the same file
  have stood : old.get? location = some (.file content modified) :=
    FileTree.holds_of_locate_absolute sound.grounded rooted located
  have keeps : FileTree.KeepsWays (old.put location (.file other moment)) old := by
    intro place entry stands way
    rw [FileTree.get?_put _ _ _ _ (FileTree.ne_root_of_noWay noWay)] at stands
    split at stands
    · obtain rfl := Option.some.inj stands
      cases way
    · exact stands
  exact absent _ _ (FileTree.locate_target_of_spot keeps otherRooted reached rfl stood rfl)

/-- No directory is made where the files go to one that is there. -/
theorem run_writeFiles_of_leads {patchPath logPath : Path} {place : Location} {patch : Bytes}
    {message : Option Bytes} (rooted : directory.isAbsolute = true)
    (leads : machine.tree.Leads directory place) :
    (writeFiles directory patchPath logPath patch message).run machine =
      (writeBoth patchPath logPath patch message).run machine := by
  have anchored : directory.anchor ≠ .relative := by
    simpa [Path.isAbsolute] using rooted
  have made : (Machine.makeDirectories directory.anchor directory.parts.reverse).run machine =
      ⟨.ok (), machine, []⟩ :=
    Machine.run_makeDirectories_of_leads anchored (by rwa [List.reverse_reverse])
  rw [writeFiles_eq, Effect.run_bind, made]
  rfl

/-! ### The new shelf in a listing -/

/-- The log message that a shelf is to be listed with. -/
def owedMessage (request : CreateRequest) : Text :=
  match request.logMessage with
  | some message => message.uniformLines.strip
  | none => []

namespace Creation

variable {root patchPath logPath : Path} {written : Machine}
  {taken : Outcome Activity Machine Unit}
  (creation : Creation settings request machine root patchPath logPath written taken)
  (sound : machine.Sound)
  (aside : ∀ call ∈ calls ((settings.create request).run machine).events,
    RevertsBeside patchPath logPath call)

include creation sound aside

theorem keptPatch : KeptPatch settings patchPath machine.clock
    ((settings.create request).run machine).world := by
  obtain ⟨rooted, patchRooted, logRooted⟩ := creation.isAbsolute sound
  have after := Machine.Sound.afterCall machine settings.program (creation.sound_afterCall aside)
  have callable : machine.Callable settings.program := ⟨_, _, creation.called⟩
  have kept := keptPatch_of_writeFiles after rooted patchRooted logRooted callable.afterCall
    creation.writes
  rw [creation.whole]
  show KeptPatch settings patchPath machine.clock taken.world
  refine kept.takeOut creation.takes fun call member => ?_
  have spares := creation.spares_of_mem_calls aside member
  exact ⟨spares.sound, spares.first⟩

/-- A message that is given is what the log file shows. -/
theorem messageAt_log {message : Text} (given : request.logMessage = some message) :
    messageAt ((settings.create request).run machine).world.tree logPath =
      message.uniformLines.strip := by
  rw [messageAt_of_read (creation.read_log sound aside given),
    Utf8.decodeReplaced_encode (creation.hasRaw_of_logMessage given)]

/-- What the log file held before is what it holds afterwards, if no message is given. -/
theorem read_log_of_none (unsaid : request.logMessage = none)
    (spares : SparesFiles patchPath logPath machine.tree (machine.afterCall settings.program).tree)
    {content : Bytes} (reads : machine.tree.read [] logPath = .ok content) :
    ((settings.create request).run machine).world.tree.read [] logPath = .ok content := by
  obtain ⟨rooted, patchRooted, logRooted⟩ := creation.isAbsolute sound
  obtain ⟨stem, isName, shown⟩ := exists_of_shelfFile isSuffix_log creation.logNamed
  obtain ⟨location, modified, located⟩ := FileTree.read_eq_ok_iff.1 reads
  rw [← spares.second] at located
  have absent := not_located_of_absent patchRooted creation.prepared.absent
  rw [← spares.first] at absent
  -- the directory is there, since it holds the log file
  obtain ⟨place, leads⟩ := FileTree.exists_leads_of_locate_child rooted isName (shown ▸ located)
  have writes := creation.writes
  rw [unsaid, run_writeFiles_of_leads rooted leads] at writes
  obtain ⟨done, first, -, whole⟩ := Effect.exists_of_run_bind_ok (congrArg Outcome.result writes)
  obtain ⟨tree, wrote, ran⟩ := Machine.exists_of_run_writeFile first
  have after : written = (machine.afterCall settings.program).withTree tree := by
    refine (congrArg Outcome.world writes).symm.trans ((congrArg Outcome.world whole).trans ?_)
    rw [ran]
    rfl
  have kept := locate_of_write_absent (creation.sound_afterCall aside) logRooted patchRooted
    located absent wrote
  have same := (creation.locate_same aside).2
  rw [after, Machine.tree_withTree, kept] at same
  rw [creation.whole]
  exact FileTree.read_of_locate [] logRooted same

end Creation

/-- The name of a shelf as it is read back from the name of its file. -/
def readBack (stem : Text) : Text :=
  Utf8.decodeEscaped (Utf8.encode stem)

theorem keyOf_readBack (stem : Text) :
    readBack (Shelf.keyOf stem) = Shelf.keyOf (readBack stem) :=
  decodeEscaped_suffix stem isSuffix_patch

theorem join_readBack (directory : Path) {stem : Text} (whole : Glyph.char '/' ∉ stem) :
    directory / Path.ofText (readBack stem ++ Shelf.logSuffix) =
      directory.child (readBack stem ++ Shelf.logSuffix) := by
  have wholeBack : Glyph.char '/' ∉ readBack stem := by
    have byte (text : Text) :=
      Utf8.mem_encode_ascii (show FileTree.slash.toNat < 0x80 by decide) text
    intro member
    refine whole ((byte stem).1 ?_)
    rw [← Utf8.encode_decodeEscaped (Utf8.encode stem)]
    exact (byte _).2 member
  rw [Path.ofText_of_isPart (isSuffix_log.isPart wholeBack)]
  rfl

/-- A name that was read back is spelled with the same bytes in a path. -/
theorem encode_child_readBack (directory : Path) (stem suffix : Text) :
    Utf8.encode (directory.child (readBack stem ++ suffix)).toText =
      Utf8.encode (directory.child (stem ++ suffix)).toText := by
  obtain ⟨lead, shown⟩ := directory.exists_toText_child
  rw [shown, shown, Utf8.encode_append, Utf8.encode_append, Utf8.encode_append,
    Utf8.encode_append, readBack, Utf8.encode_decodeEscaped]

/-- A listing that goes well has the new shelf, with the message that the log file of the
shelf holds then. -/
theorem Creation.listed {root patchPath logPath : Path} {written : Machine}
    {taken : Outcome Activity Machine Unit} {path stem : Text} {records : Shelves}
    (creation : Creation settings request machine root patchPath logPath written taken)
    (sound : machine.Sound)
    (aside : ∀ call ∈ calls ((settings.create request).run machine).events,
      RevertsBeside patchPath logPath call)
    (isStem : IsStem (settings.shelvesPath root) request.name stem)
    (finds : settings.Finds ((settings.create request).run machine).world path
      (settings.shelvesPath root))
    (listed : ((settings.list path).run ((settings.create request).run machine).world).result =
      .ok records) :
    (IsShelfKey (readBack (Shelf.keyOf stem)) →
        records.get? (readBack (Shelf.keyOf stem)) ≠ none) ∧
      ∀ record, records.get? (readBack (Shelf.keyOf stem)) = some record →
        record.message =
          messageAt ((settings.create request).run machine).world.tree logPath := by
  obtain ⟨rooted, -, logRooted⟩ := creation.isAbsolute sound
  obtain ⟨found, foundRoot, same⟩ := finds
  obtain rfl := Except.ok.inj
    (creation.prepared.named.symm.trans (isStem.shelfFile _ isSuffix_patch))
  obtain rfl := Except.ok.inj (creation.logNamed.symm.trans (isStem.shelfFile _ isSuffix_log))
  refine ⟨fun isKey => ?_, fun record known => ?_⟩
  · obtain ⟨-, place, leads, there⟩ := (creation.keptPatch sound aside).exists_entry rooted
      (isSuffix_patch.isEntryName isStem.whole)
    refine get?_ne_none_of_list_ok listed foundRoot (same ▸ rooted) (same.symm ▸ leads) ?_ isKey
    refine List.mem_filter.2 ⟨List.mem_map.2 ⟨_, ?_, rfl⟩, isKey.ends⟩
    exact (FileTree.mem_names_iff _ place _).2 there
  · obtain ⟨other, names, otherRoot, -, -, recorded⟩ := exists_of_list_ok listed known
    obtain rfl := Except.ok.inj (foundRoot.symm.trans otherRoot)
    have read := recorded.message
    have joined := join_readBack (settings.shelvesPath root) isStem.whole
    rw [same, keyOf_readBack, Shelf.nameOf_keyOf] at read
    have shown := message_of_readMessage (by rw [joined]; exact rooted) read
    rw [shown, joined, messageAt_of_encode (encode_child_readBack _ stem _)]

/-- The message with which a new shelf is listed is the one it is owed, unless none is given
and a log file is there all the same.  Then it is what that file says: if the file was there
before, the words of an earlier shelf. -/
theorem listed_message (settings : WorkingCopyStore) (request : CreateRequest)
    (machine : Machine) (path : Text) {directory : Path} {stem : Text} {records : Shelves}
    (sound : machine.Sound) (wet : request.dryRun = false)
    (succeeded : ((settings.create request).run machine).result = .ok ())
    (asked : settings.directory? request machine = some directory)
    (isStem : IsStem directory request.name stem)
    (aside : ∀ call ∈ calls ((settings.create request).run machine).events,
      RevertsBeside (directory.child (stem ++ Shelf.patchSuffix))
        (directory.child (stem ++ Shelf.logSuffix)) call)
    (finds : settings.Finds ((settings.create request).run machine).world path directory)
    (listed : ((settings.list path).run ((settings.create request).run machine).world).result =
      .ok records) :
    (IsShelfKey (readBack (Shelf.keyOf stem)) →
        records.get? (readBack (Shelf.keyOf stem)) ≠ none) ∧
      ∀ record, records.get? (readBack (Shelf.keyOf stem)) = some record →
        (record.message = owedMessage request ↔
          (request.logMessage = none →
            messageAt ((settings.create request).run machine).world.tree
              (directory.child (stem ++ Shelf.logSuffix)) = [])) ∧
        (request.logMessage = none →
          record.message = messageAt ((settings.create request).run machine).world.tree
            (directory.child (stem ++ Shelf.logSuffix))) ∧
        (request.logMessage = none →
          SparesFiles (directory.child (stem ++ Shelf.patchSuffix))
            (directory.child (stem ++ Shelf.logSuffix)) machine.tree
            (machine.afterCall settings.program).tree →
          ∀ content, machine.tree.read [] (directory.child (stem ++ Shelf.logSuffix)) =
              .ok content →
            record.message = (Utf8.decodeReplaced content).uniformLines.strip) := by
  obtain ⟨root, patchPath, logPath, written, taken, creation⟩ := exists_creation wet succeeded
  obtain rfl := Option.some.inj (asked.symm.trans (directory?_of_prepared creation.prepared))
  obtain rfl := Except.ok.inj
    (creation.prepared.named.symm.trans (isStem.shelfFile _ isSuffix_patch))
  obtain rfl := Except.ok.inj (creation.logNamed.symm.trans (isStem.shelfFile _ isSuffix_log))
  obtain ⟨there, shows⟩ := creation.listed sound aside isStem finds listed
  refine ⟨there, fun record known => ?_⟩
  have shown := shows record known
  refine ⟨?_, fun _ => shown, fun unsaid spares content reads => ?_⟩
  · rw [shown, owedMessage]
    cases given : request.logMessage with
    | none => simp
    | some message => simp [creation.messageAt_log sound aside given]
  · rw [shown, messageAt_of_read (creation.read_log_of_none sound aside unsaid spares reads)]

/-- A log file stands in the directory of shelves that no patch file goes with. -/
def leftoverMachine : Machine :=
  let plain := plainMachine (Utf8.encode "Index: a\n+x\n")
  let shelves : Location := [Utf8.encode "shelves", Utf8.encode ".svn", Utf8.encode "wc"]
  plain.withTree ((plain.tree.put shelves .directory).put (Utf8.encode "n.log" :: shelves)
    (.file (Utf8.encode "old words\n") .epoch))

/-- A shelf that is made there, without a log message. -/
def leftoverCreation : Outcome Activity Machine Unit :=
  (plainSettings.create (plainRequest none)).run leftoverMachine

theorem listed_message_of_leftover :
    ∃ records record,
      ((plainSettings.list "/wc").run leftoverCreation.world).result = .ok records ∧
      records.get? "n.patch" = some record ∧ record.message = "old words" ∧
      record.message ≠ owedMessage (plainRequest none) := by
  have still : ∀ call ∈ calls leftoverCreation.events,
      call.left = call.found ∧ call.left.Sound := by decide +kernel
  have asked : plainSettings.directory? (plainRequest none) leftoverMachine =
      some plainDirectory := by decide +kernel
  have readable : ((plainSettings.list "/wc").run leftoverCreation.world).result.isOk = true := by
    decide +kernel
  cases listed : ((plainSettings.list "/wc").run leftoverCreation.world).result with
  | error reason =>
      rw [listed] at readable
      cases readable
  | ok records =>
      have named : shelfFile plainDirectory "n" Shelf.patchSuffix =
          .ok (plainDirectory.child ("n" ++ Shelf.patchSuffix)) := by decide +kernel
      obtain ⟨stem, isStem, -⟩ := exists_isStem isSuffix_patch named
      obtain rfl : stem = "n" := isStem.eq_of_whole (by decide)
      obtain ⟨there, shows⟩ := listed_message plainSettings (plainRequest none) leftoverMachine
        "/wc" ⟨by decide +kernel, fun _ => rfl⟩ rfl (by decide +kernel) asked isStem
        (fun call member => by
          obtain ⟨alike, sound⟩ := still call member
          exact ⟨sound, fun _ => ⟨sound, by rw [alike], by rw [alike]⟩⟩)
        ⟨⟨.root, ["wc"]⟩, by decide +kernel, rfl⟩ listed
      obtain ⟨record, known⟩ := Option.ne_none_iff_exists'.1
        (there ⟨by decide +kernel, by decide +kernel⟩)
      obtain ⟨owed, -, left⟩ := shows record known
      have message := left rfl ⟨by decide +kernel, by decide +kernel, by decide +kernel⟩
        (Utf8.encode "old words\n") (by decide +kernel)
      refine ⟨records, record, rfl, known, message.trans (by decide +kernel), ?_⟩
      rw [message]
      decide +kernel

end WorkingCopyStore

end PatchShelf
