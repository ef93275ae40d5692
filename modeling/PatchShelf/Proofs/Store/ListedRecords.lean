/-
Module: PatchShelf.Proofs.Store.ListedRecords
Purpose: What a listing that goes well says about each of its records.
Main exports:
  WorkingCopyStore.Recorded, WorkingCopyStore.RecordedWithMessage,
  WorkingCopyStore.recorded_of_readRecords, WorkingCopyStore.exists_of_list_ok,
  WorkingCopyStore.get?_ne_none_of_list_ok, WorkingCopyStore.timely_of_list_ok
-/
import PatchShelf.Proofs.Store.LegibleRecords

/-!
A listing that goes well has a record only for an entry of the directory of shelves whose
name ends like that of a patch file.  Of the entry itself it only knows that its status could
be asked for: it may be a directory, and its name may be one that no shelf is made under.  The
message comes from the log file beside it.  Every such entry has its record, unless its name
is blank before the suffix.
-/

namespace PatchShelf

namespace WorkingCopyStore

variable {settings : WorkingCopyStore} {directory : Path} {machine : Machine}

/-- The record presents an entry with the key of a shelf, of which the status is known. -/
structure Recorded (machine : Machine) (directory : Path) (key : Text) (record : ShelfRecord) :
    Prop extends IsShelfKey key, Presents directory key record where
  status : ∃ status, machine.tree.status machine.directory (directory.child key) = .ok status

/-- What is more, the message of the record was read from the log file. -/
structure RecordedWithMessage (machine : Machine) (directory : Path) (key : Text)
    (record : ShelfRecord) : Prop extends Recorded machine directory key record where
  message : ((readMessage directory (Shelf.nameOf key)).run machine).result = .ok record.message

/-- The status of the entry with a key is known, and its time can be read. -/
def Timely (machine : Machine) (directory : Path) (key : Text) : Prop :=
  ∃ status moment, machine.tree.status machine.directory (directory.child key) = .ok status ∧
    status.modified.read = .ok moment

theorem fields_of_make {name patchPath message : Text} {modified : Instant} {size : Int}
    {record : ShelfRecord}
    (made : ShelfRecord.make name patchPath modified size message = .ok record) :
    record.name = name ∧ record.patchPath = patchPath ∧ record.message = message := by
  rw [ShelfRecord.make] at made
  split at made
  · split at made
    · cases made
    · obtain rfl := Except.ok.inj made
      exact ⟨rfl, rfl, rfl⟩
  · cases made

/-- One key with the suffix of a patch file is passed over, or its record is added. -/
theorem exists_of_readRecords_cons_ok {first : Text} {rest : List Text} {records all : Shelves}
    (ends : first.endsWith Shelf.patchSuffix = true)
    (read : ((readRecords directory (first :: rest) records).run machine).result = .ok all) :
    (¬ IsShelfKey first ∧ ((readRecords directory rest records).run machine).result = .ok all) ∨
    ∃ record, RecordedWithMessage machine directory first record ∧
      Timely machine directory first ∧
      ((readRecords directory rest (records.insert first record)).run machine).result =
        .ok all := by
  have name : first.take (first.length - Shelf.patchSuffix.length) = Shelf.nameOf first := by
    rw [Shelf.nameOf, if_pos ends]
  rw [readRecords] at read
  simp only [name] at read
  by_cases blank : (Shelf.nameOf first).isBlank = true
  · rw [if_pos blank] at read
    obtain ⟨-, -, goes, -⟩ := Effect.exists_of_run_bind_ok read
    refine .inl ⟨fun isKey => ?_, goes⟩
    rw [isKey.filled] at blank
    cases blank
  · rw [if_neg blank] at read
    obtain ⟨status, found, read⟩ := (Machine.reads_access _).exists_of_bind_ok read
    obtain ⟨modified, timely, read⟩ := (Effect.Reads.ofAccess _).exists_of_bind_ok read
    obtain ⟨message, shown, read⟩ := (reads_readMessage _ _).exists_of_bind_ok read
    obtain ⟨added, made, goes⟩ := (Effect.Reads.ofAccess _).exists_of_bind_ok read
    rw [Machine.run_access] at found
    rw [Effect.run_ofAccess] at timely made
    have known := mapError_eq_ok_iff.1 found
    obtain ⟨named, patchPath, own⟩ := fields_of_make (mapError_eq_ok_iff.1 made)
    exact .inr ⟨added, ⟨⟨⟨ends, by simpa using blank⟩, ⟨named, patchPath⟩, status, known⟩,
      own ▸ shown⟩, ⟨status, modified, known, mapError_eq_ok_iff.1 timely⟩, goes⟩

/-- Reading the records of some keys adds records of these keys only. -/
theorem recorded_of_readRecords {keys : List Text} {records all : Shelves}
    (ends : ∀ key ∈ keys, key.endsWith Shelf.patchSuffix = true)
    (read : ((readRecords directory keys records).run machine).result = .ok all)
    {key : Text} {record : ShelfRecord} (known : all.get? key = some record) :
    records.get? key = some record ∨
      key ∈ keys ∧ RecordedWithMessage machine directory key record := by
  induction keys generalizing records with
  | nil =>
      obtain rfl := Except.ok.inj read
      exact .inl known
  | cons first rest ih =>
      rw [List.forall_mem_cons] at ends
      rcases exists_of_readRecords_cons_ok ends.1 read with
        ⟨-, goes⟩ | ⟨added, recorded, -, goes⟩
      · exact (ih ends.2 goes).imp_right fun ⟨member, later⟩ =>
          ⟨List.mem_cons_of_mem _ member, later⟩
      · rcases ih ends.2 goes with before | ⟨member, later⟩
        · rw [Dictionary.get?_insert] at before
          split at before
          · rename_i here
            obtain rfl := Option.some.inj before
            exact .inr ⟨here ▸ List.mem_cons_self, here ▸ recorded⟩
          · exact .inl before
        · exact .inr ⟨List.mem_cons_of_mem _ member, later⟩

/-- Reading the records of some keys leaves none of them out, and none that was there. -/
theorem get?_ne_none_of_readRecords {keys : List Text} {records all : Shelves}
    (ends : ∀ key ∈ keys, key.endsWith Shelf.patchSuffix = true)
    (read : ((readRecords directory keys records).run machine).result = .ok all) {key : Text}
    (given : key ∈ keys ∧ IsShelfKey key ∨ records.get? key ≠ none) : all.get? key ≠ none := by
  induction keys generalizing records with
  | nil =>
      obtain rfl := Except.ok.inj read
      exact given.resolve_left fun inside => List.not_mem_nil inside.1
  | cons first rest ih =>
      rw [List.forall_mem_cons] at ends
      rcases exists_of_readRecords_cons_ok ends.1 read with
        ⟨unnamed, goes⟩ | ⟨added, -, -, goes⟩
      · apply ih ends.2 goes
        apply given.imp_left
        intro inside
        exact ⟨mem_of_unnamed unnamed inside.1 inside.2, inside.2⟩
      · by_cases here : key = first
        · exact ih ends.2 goes (.inr (by simp [here]))
        · refine ih ends.2 goes ?_
          rw [Dictionary.get?_insert, if_neg here]
          apply given.imp_left
          intro inside
          exact ⟨(List.mem_cons.1 inside.1).resolve_left here, inside.2⟩

/-- All times that the reading came to could be read. -/
theorem timely_of_readRecords {keys : List Text} {records all : Shelves}
    (ends : ∀ key ∈ keys, key.endsWith Shelf.patchSuffix = true)
    (read : ((readRecords directory keys records).run machine).result = .ok all) {key : Text}
    (member : key ∈ keys) (isKey : IsShelfKey key) : Timely machine directory key := by
  induction keys generalizing records with
  | nil => cases member
  | cons first rest ih =>
      rw [List.forall_mem_cons] at ends
      rcases exists_of_readRecords_cons_ok ends.1 read with
        ⟨unnamed, goes⟩ | ⟨added, -, timely, goes⟩
      · exact ih ends.2 goes (mem_of_unnamed unnamed member isKey)
      · rcases List.mem_cons.1 member with rfl | later
        · exact timely
        · exact ih ends.2 goes later

/-- The records of a listing that goes well are those of entries of the directory of shelves
of the working copy that the path lies in. -/
theorem exists_of_list_ok {path key : Text} {records : Shelves} {record : ShelfRecord}
    (listed : ((settings.list path).run machine).result = .ok records)
    (known : records.get? key = some record) :
    ∃ root names, ((findRoot path).run machine).result = .ok root ∧
      machine.tree.namesAt machine.directory (settings.shelvesPath root) = .ok names ∧
      key ∈ names.map Utf8.decodeEscaped ∧
      RecordedWithMessage machine (settings.shelvesPath root) key record := by
  obtain ⟨root, found, listed⟩ := (reads_findRoot path).exists_of_bind_ok listed
  obtain ⟨there, -, listed⟩ := (Machine.reads_access _).exists_of_bind_ok listed
  cases there with
  | false =>
      obtain rfl := Except.ok.inj listed
      cases known
  | true =>
      simp only [if_true] at listed
      rw [run_explaining, worded_eq_ok_iff] at listed
      obtain ⟨names, given, read⟩ := (Machine.reads_access _).exists_of_bind_ok listed
      rw [Machine.run_access] at given
      rcases recorded_of_readRecords (fun key member => (List.mem_filter.1 member).2) read known
        with nothing | ⟨member, recorded⟩
      · cases nothing
      · exact ⟨root, names, found, mapError_eq_ok_iff.1 given, (List.mem_filter.1 member).1,
          recorded⟩

section InDirectory

variable {path key : Text} {root : Path} {place : Location} {records : Shelves}
  (listed : ((settings.list path).run machine).result = .ok records)
  (found : ((findRoot path).run machine).result = .ok root)
  (absolute : (settings.shelvesPath root).isAbsolute = true)
  (leads : machine.tree.Leads (settings.shelvesPath root) place)

include listed found absolute leads

/-- A listing that goes well has read the records of the keys in the directory. -/
theorem readRecords_of_list_ok :
    ((readRecords (settings.shelvesPath root) (keysIn machine.tree place) .empty).run
      machine).result = .ok records := by
  obtain ⟨lead, listing⟩ := run_list_of_leads found absolute leads
  rwa [listing, run_explaining, worded_eq_ok_iff] at listed

/-- A listing that goes well has a record for every key of a shelf in the directory. -/
theorem get?_ne_none_of_list_ok (member : key ∈ keysIn machine.tree place)
    (isKey : IsShelfKey key) : records.get? key ≠ none := by
  have read := readRecords_of_list_ok listed found absolute leads
  exact get?_ne_none_of_readRecords (fun other inside => (List.mem_filter.1 inside).2) read
    (.inl ⟨member, isKey⟩)

/-- A listing that goes well could read the time of every key of a shelf. -/
theorem timely_of_list_ok (member : key ∈ keysIn machine.tree place)
    (isKey : IsShelfKey key) : Timely machine (settings.shelvesPath root) key := by
  have read := readRecords_of_list_ok listed found absolute leads
  exact timely_of_readRecords (fun other inside => (List.mem_filter.1 inside).2) read member isKey

end InDirectory

/-- The path of a patch file that is listed can be passed on. -/
theorem Recorded.noNull {key : Text} {record : ShelfRecord}
    (recorded : Recorded machine directory key record) :
    record.patchPath.holds '\x00' = false := by
  obtain ⟨status, found⟩ := recorded.status
  rw [recorded.patchPath]
  refine Bool.eq_false_iff.2 fun null => ?_
  rw [FileTree.status, FileTree.locate, FileTree.locateText, if_pos null] at found
  cases found

end WorkingCopyStore

end PatchShelf
