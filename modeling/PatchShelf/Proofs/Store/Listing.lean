/-
Module: PatchShelf.Proofs.Store.Listing
Purpose: The records that the store lists are those of the map of shelves.
Main exports:
  SavedShelf.shownMessage, WorkingCopyStore.Describes, WorkingCopyStore.Lists,
  WorkingCopyStore.HasTimes, WorkingCopyStore.wordsAt, WorkingCopyStore.exists_run_readRecords,
  WorkingCopyStore.exists_run_list, WorkingCopyStore.exists_stop_list
-/
import PatchShelf.Proofs.Store.ShelfSteps

/-!
Listing reads one record after the other.  Each key that comes up is that of a name of
the map, and its record says what the map does, so the records that are collected in the
end are those of the map: no more, no fewer.
-/

namespace PatchShelf

/-- The message of a shelf as records show it. -/
def SavedShelf.shownMessage (shelf : SavedShelf) : Text :=
  match shelf.message with
  | none => []
  | some text => (Utf8.decodeReplaced (Utf8.encode text)).uniformLines.strip

namespace WorkingCopyStore

open FileTree (EntryPath)

/-- The record is that of a shelf. -/
structure Describes (directory : Path) (name : Text) (shelf : SavedShelf) (record : ShelfRecord) :
    Prop where
  named : record.name = name
  patchPath : record.patchPath = (directory.child (Shelf.keyOf name)).toText
  size : record.size = (Utf8.encode shelf.patch).length
  message : record.message = shelf.shownMessage

/-- The records are those of the shelves, one for each name. -/
structure Lists (directory : Path) (records : Shelves) (shelves : SavedShelves) : Prop where
  complete : ∀ name shelf, shelves.get? name = some shelf → ∃ record,
    records.get? (Shelf.keyOf name) = some record ∧ Describes directory name shelf record
  only : ∀ key record, records.get? key = some record → ∃ name shelf,
    shelves.get? name = some shelf ∧ key = Shelf.keyOf name

/-- The times of the patch files in the directory can be read as moments of the calendar. -/
def HasTimes (tree : FileTree) (directory : Path) : Prop :=
  ∀ place, tree.Leads directory place → ∀ name content modified,
    tree.get? (patchAt place name) = some (.file content modified) →
      ∃ moment, modified.read = .ok moment

variable {settings : WorkingCopyStore} {root : Path} {machine : Machine} {directory : Path}
  {place : Location} {shelves : SavedShelves} {name : Text} {shelf : SavedShelf}

/-- The words of the log file at a location, none if there is no file. -/
def wordsAt (tree : FileTree) (location : Location) : Text :=
  match tree.get? location with
  | some (.file content _) => (Utf8.decodeReplaced content).uniformLines.strip
  | some .directory => []
  | some (.link _) => []
  | none => []

/-- The message of a shelf is what stands where its log file would be. -/
theorem run_readMessage_of_entryPath (logPath : EntryPath directory (name ++ Shelf.logSuffix))
    (leads : machine.tree.Leads directory place)
    (noLink : ∀ target, machine.tree.get? (Utf8.encode (name ++ Shelf.logSuffix) :: place) ≠
      some (.link target)) :
    (readMessage directory name).run machine =
      ⟨.ok (wordsAt machine.tree (Utf8.encode (name ++ Shelf.logSuffix) :: place)), machine,
        []⟩ := by
  have whole : Glyph.char '/' ∉ name := fun member =>
    logPath.name.whole (List.mem_append_left _ member)
  have joined : directory / Path.ofText (name ++ Shelf.logSuffix) =
      directory.child (name ++ Shelf.logSuffix) := by
    rw [Path.ofText_of_isPart (isSuffix_log.isPart whole)]
    rfl
  have probed := logPath.probe leads machine.directory noLink
  rw [readMessage, joined, (Machine.reads_access _).run_bind, Machine.run_access,
    FileTree.isFile, probed, wordsAt]
  cases stands : machine.tree.get? (Utf8.encode (name ++ Shelf.logSuffix) :: place) with
  | none => rfl
  | some entry =>
      cases entry with
      | directory => rfl
      | link target => rfl
      | file content modified =>
          have read := logPath.read_file leads machine.directory stands
          simp only [Except.map, mapError_ok, Option.any, Entry.isFile, if_true]
          rw [(Machine.reads_access _).run_bind, Machine.run_access, read]
          rfl

theorem run_readMessage (holds : HoldsShelves machine.tree directory place shelves)
    (absolute : directory.isAbsolute = true) (known : shelves.get? name = some shelf) :
    (readMessage directory name).run machine = ⟨.ok shelf.shownMessage, machine, []⟩ := by
  have shelfName := holds.named name shelf known
  rw [run_readMessage_of_entryPath (shelfName.logPath absolute) holds.leads (holds.noLink _),
    wordsAt, SavedShelf.shownMessage.eq_def]
  cases given : shelf.message with
  | none =>
      rw [show machine.tree.get? (Utf8.encode (name ++ Shelf.logSuffix) :: place) = none from
        holds.noLog name shelf known given]
  | some message =>
      obtain ⟨modified, stands⟩ := holds.log name shelf known message given
      rw [show machine.tree.get? (Utf8.encode (name ++ Shelf.logSuffix) :: place) = _ from stands]

/-- One key of the directory stands for one patch file, whose time is read first. -/
theorem exists_run_readRecords_cons (holds : HoldsShelves machine.tree directory place shelves)
    (absolute : directory.isAbsolute = true) (known : shelves.get? name = some shelf)
    (keys : List Text) (records : Shelves) :
    ∃ modified,
      machine.tree.get? (patchAt place name) = some (.file (Utf8.encode shelf.patch) modified) ∧
      (∀ fault, modified.read = .error fault →
        (readRecords directory (Shelf.keyOf name :: keys) records).run machine =
          ⟨.error (.fault fault), machine, []⟩) ∧
      ∀ moment, modified.read = .ok moment → ∃ record, Describes directory name shelf record ∧
        (readRecords directory (Shelf.keyOf name :: keys) records).run machine =
          (readRecords directory keys (records.insert (Shelf.keyOf name) record)).run machine := by
  have shelfName := holds.named name shelf known
  have patchPath := shelfName.patchPath absolute
  obtain ⟨modified, stands⟩ := holds.patch name shelf known
  have status := patchPath.status holds.leads machine.directory stands rfl
  have cut : (Shelf.keyOf name).take ((Shelf.keyOf name).length - Shelf.patchSuffix.length) =
      name := by
    simp [Shelf.keyOf]
  have path : directory / (⟨.relative, [Shelf.keyOf name]⟩ : Path) =
      directory.child (name ++ Shelf.patchSuffix) := rfl
  have filled := shelfName.filled
  refine ⟨modified, stands, ?_⟩
  rw [readRecords]
  simp only [cut, filled, path, Bool.false_eq_true, if_false]
  rw [(Machine.reads_access _).run_bind, Machine.run_access, status]
  simp only [mapError_ok, Entry.status]
  rw [(Effect.Reads.ofAccess _).run_bind, Effect.run_ofAccess]
  constructor
  · intro fault late
    rw [late]
    rfl
  · intro moment timely
    refine ⟨⟨name, (directory.child (Shelf.keyOf name)).toText, moment,
      (Utf8.encode shelf.patch).length, shelf.shownMessage, filled⟩, ⟨rfl, rfl, rfl, rfl⟩, ?_⟩
    rw [timely]
    simp only [mapError_ok]
    rw [Effect.run_bind, run_readMessage holds absolute known]
    simp only
    rw [(Effect.Reads.ofAccess _).run_bind, Effect.run_ofAccess, ShelfRecord.make, dif_pos filled,
      if_neg (by omega)]
    rfl

/-- Reading the records of some names of the map adds these records and no others. -/
theorem exists_run_readRecords (holds : HoldsShelves machine.tree directory place shelves)
    (absolute : directory.isAbsolute = true) (times : HasTimes machine.tree directory)
    (keys : List Text)
    (known : ∀ key ∈ keys, ∃ name shelf, shelves.get? name = some shelf ∧ key = Shelf.keyOf name)
    (records : Shelves) :
    ∃ all, (readRecords directory keys records).run machine = ⟨.ok all, machine, []⟩ ∧
      (∀ name shelf, Shelf.keyOf name ∈ keys → shelves.get? name = some shelf → ∃ record,
        all.get? (Shelf.keyOf name) = some record ∧ Describes directory name shelf record) ∧
      ∀ key, key ∉ keys → all.get? key = records.get? key := by
  induction keys generalizing records with
  | nil => exact ⟨records, rfl, by simp, fun _ _ => rfl⟩
  | cons key keys ih =>
      obtain ⟨name, shelf, held, rfl⟩ := known key List.mem_cons_self
      obtain ⟨modified, stands, -, timely⟩ :=
        exists_run_readRecords_cons holds absolute held keys records
      obtain ⟨moment, read⟩ := times place holds.leads name _ modified stands
      obtain ⟨record, describes, opened⟩ := timely moment read
      obtain ⟨all, read, complete, others⟩ :=
        ih (fun other member => known other (List.mem_cons_of_mem _ member))
          (records.insert (Shelf.keyOf name) record)
      refine ⟨all, opened.trans read, ?_, ?_⟩
      · intro other found member knownOther
        by_cases later : Shelf.keyOf other ∈ keys
        · exact complete other found later knownOther
        · -- The key is the first one, and none of the later ones replaces its record.
          have same : Shelf.keyOf other = Shelf.keyOf name :=
            (List.mem_cons.1 member).resolve_right later
          obtain rfl : other = name := by
            rw [← Shelf.nameOf_keyOf other, same, Shelf.nameOf_keyOf]
          obtain rfl := Option.some.inj (held.symm.trans knownOther)
          refine ⟨record, ?_, describes⟩
          rw [others _ later, Dictionary.get?_insert, if_pos rfl]
      · intro other absent
        rw [List.mem_cons, not_or] at absent
        rw [others other absent.2, Dictionary.get?_insert, if_neg absent.1]

/-- A patch whose time cannot be read stops the reading. -/
theorem exists_stop_readRecords (holds : HoldsShelves machine.tree directory place shelves)
    (absolute : directory.isAbsolute = true) (keys : List Text)
    (known : ∀ key ∈ keys, ∃ name shelf, shelves.get? name = some shelf ∧ key = Shelf.keyOf name)
    {content : Bytes} {modified : FileTime} {fault : Fault} (member : Shelf.keyOf name ∈ keys)
    (stands : machine.tree.get? (patchAt place name) = some (.file content modified))
    (late : modified.read = .error fault) (records : Shelves) :
    ∃ reason, (readRecords directory keys records).run machine = ⟨.error reason, machine, []⟩ := by
  induction keys generalizing records with
  | nil => cases member
  | cons key keys ih =>
      obtain ⟨other, shelf, held, rfl⟩ := known key List.mem_cons_self
      obtain ⟨shown, found, stops, goes⟩ :=
        exists_run_readRecords_cons holds absolute held keys records
      cases time : shown.read with
      | error fault => exact ⟨_, stops fault time⟩
      | ok moment =>
          obtain ⟨record, -, opened⟩ := goes moment time
          rw [opened]
          refine ih (fun later inside => known later (List.mem_cons_of_mem _ inside)) ?_ _
          refine (List.mem_cons.1 member).resolve_left fun first => ?_
          -- The time of the first patch was read, so that is another one.
          obtain rfl : name = other := by
            rw [← Shelf.nameOf_keyOf name, first, Shelf.nameOf_keyOf]
          rw [stands] at found
          cases found
          rw [late] at time
          cases time

/-- The keys of the patch files in the directory are those of the map. -/
theorem mem_keysIn_iff (holds : HoldsShelves machine.tree directory place shelves) (key : Text) :
    key ∈ keysIn machine.tree place ↔
      ∃ name shelf, shelves.get? name = some shelf ∧ key = Shelf.keyOf name := by
  rw [keysIn, List.mem_filter, List.mem_map]
  constructor
  · rintro ⟨⟨fileName, member, rfl⟩, ends⟩
    obtain ⟨name, known, at_⟩ := holds.only fileName ((machine.tree.mem_names_iff place _).1 member)
    obtain ⟨shelf, found⟩ := Option.ne_none_iff_exists'.1 known
    have shelfName := holds.named name shelf found
    refine ⟨name, shelf, found, ?_⟩
    rcases at_ with patch | log
    · rw [(List.cons.inj patch).1, shelfName.decode isSuffix_patch]
      rfl
    · rw [(List.cons.inj log).1, shelfName.decode isSuffix_log, endsWith_patch_log] at ends
      cases ends
  · rintro ⟨name, shelf, found, rfl⟩
    have shelfName := holds.named name shelf found
    obtain ⟨modified, stands⟩ := holds.patch name shelf found
    refine ⟨⟨Utf8.encode (name ++ Shelf.patchSuffix), ?_, shelfName.decode isSuffix_patch⟩, ?_⟩
    · rw [machine.tree.mem_names_iff]
      show machine.tree.get? (patchAt place name) ≠ none
      simp [stands]
    · exact List.isSuffixOf_iff_suffix.2 ⟨name, rfl⟩

/-- Listing a directory that is there is reading the records of its keys. -/
theorem run_list_of_leads {path : Text} (found : ((findRoot path).run machine).result = .ok root)
    (absolute : (settings.shelvesPath root).isAbsolute = true)
    (leads : machine.tree.Leads (settings.shelvesPath root) place) :
    ∃ lead, (settings.list path).run machine =
      (explaining lead (readRecords (settings.shelvesPath root) (keysIn machine.tree place)
        .empty)).run machine := by
  have there := (FileTree.isDirectory_iff machine.directory absolute).2 ⟨place, leads⟩
  have names := FileTree.namesAt_of_leads machine.directory absolute leads
  refine ⟨"Can't read shelves in '" ++ (settings.shelvesPath root).toText ++ "'", ?_⟩
  rw [list, (reads_findRoot path).run_bind, found]
  simp only
  rw [(Machine.reads_access _).run_bind, Machine.run_access, there]
  simp only [mapError_ok, if_true]
  rw [run_explaining, (Machine.reads_access _).run_bind, Machine.run_access, names]
  exact (run_explaining _ _ _).symm

/-- The store lists the shelves of the map, and changes nothing. -/
theorem exists_run_list {path : Text} (found : ((findRoot path).run machine).result = .ok root)
    (absolute : (settings.shelvesPath root).isAbsolute = true)
    (represents : Represents machine.tree (settings.shelvesPath root) shelves)
    (times : HasTimes machine.tree (settings.shelvesPath root)) :
    ∃ records, (settings.list path).run machine = ⟨.ok records, machine, []⟩ ∧
      Lists (settings.shelvesPath root) records shelves := by
  cases represents with
  | vacant vacant empty =>
      refine ⟨.empty, ?_, fun name shelf known => ?_, fun key record listed => ?_⟩
      · rw [list, (reads_findRoot path).run_bind, found]
        simp only
        rw [(Machine.reads_access _).run_bind, Machine.run_access, FileTree.isDirectory,
          vacant.probe]
        rfl
      · simp [empty name] at known
      · cases listed
  | held place holds =>
      have keys := mem_keysIn_iff holds
      obtain ⟨lead, listing⟩ := run_list_of_leads found absolute holds.leads
      obtain ⟨records, read, complete, others⟩ := exists_run_readRecords holds absolute times _
        (fun key member => (keys key).1 member) .empty
      refine ⟨records, ?_, ?_, ?_⟩
      · rw [listing, run_explaining, read]
        rfl
      · intro name shelf known
        exact complete name shelf ((keys _).2 ⟨name, shelf, known, rfl⟩) known
      · intro key record listed
        refine (keys key).1 (Decidable.byContradiction fun absent => ?_)
        rw [others key absent] at listed
        cases listed

/-- The store lists nothing if the time of a patch cannot be read. -/
theorem exists_stop_list {path : Text} (found : ((findRoot path).run machine).result = .ok root)
    (absolute : (settings.shelvesPath root).isAbsolute = true)
    (holds : HoldsShelves machine.tree (settings.shelvesPath root) place shelves)
    {content : Bytes} {modified : FileTime} {fault : Fault}
    (stands : machine.tree.get? (patchAt place name) = some (.file content modified))
    (late : modified.read = .error fault) :
    ∃ reason, (settings.list path).run machine = ⟨.error reason, machine, []⟩ := by
  have keys := mem_keysIn_iff holds
  obtain ⟨other, known, patch | log⟩ := holds.only (Utf8.encode (name ++ Shelf.patchSuffix))
    (by rw [← patchAt, stands]; exact Option.some_ne_none _)
  · obtain ⟨shelf, held⟩ := Option.ne_none_iff_exists'.1 known
    have same : patchAt place name = patchAt place other := patch
    rw [same] at stands
    obtain ⟨lead, listing⟩ := run_list_of_leads found absolute holds.leads
    obtain ⟨reason, stopped⟩ := exists_stop_readRecords holds absolute _
      (fun key member => (keys key).1 member) ((keys _).2 ⟨other, shelf, held, rfl⟩) stands late
      .empty
    rw [listing, run_explaining, stopped]
    cases ended : worded lead (.error reason) with
    | error reworded => exact ⟨reworded, rfl⟩
    | ok records => cases (worded_eq_ok_iff lead (.error reason) records).1 ended
  · exact absurd log (patchAt_ne_logAt place name other)

end WorkingCopyStore

end PatchShelf
