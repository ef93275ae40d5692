/-
Module: PatchShelf.Proofs.Store.ListedFiles
Purpose: A listed shelf that is a file is found under the name that it is listed with.
Main exports:
  WorkingCopyStore.ListedAt, WorkingCopyStore.exists_listedAt,
  WorkingCopyStore.OnlyRegularPatches, WorkingCopyStore.ListedAt.existingPatch
-/
import PatchShelf.Proofs.Store.DryRun
import PatchShelf.Proofs.Store.FoundShelf
import PatchShelf.Proofs.Store.ListedRecords

/-!
A listing takes the suffix off the names of the files, and to apply a shelf it is put back.
Whatever the file is called, this comes to the same file: the name may end in the suffix once
more, be a dot without it, or hold bytes that cannot be decoded.
-/

namespace PatchShelf

namespace WorkingCopyStore

open FileTree (IsEntryName)

variable {settings : WorkingCopyStore} {machine : Machine} {path key : Text}
  {record : ShelfRecord} {root place : Location} {name : FileName}

/-- The key of a shelf is that of its name. -/
theorem IsShelfKey.keyOf_nameOf (isKey : IsShelfKey key) :
    Shelf.keyOf (Shelf.nameOf key) = key := by
  obtain ⟨stem, rfl⟩ := List.isSuffixOf_iff_suffix.1 isKey.ends
  exact congrArg Shelf.keyOf (Shelf.nameOf_keyOf stem)

/-- The record is that of the entry with this name in the directory of shelves. -/
structure ListedAt (settings : WorkingCopyStore) (machine : Machine) (path : Text)
    (root place : Location) (name : FileName) (key : Text) (record : ShelfRecord) : Prop where
  rooted : ((findRoot path).run machine).result = .ok root.toPath
  leads : machine.tree.Leads (settings.shelvesPath root.toPath) place
  member : name ∈ machine.tree.names place
  isEntry : name.IsEntry
  spelled : key = Utf8.decodeEscaped name
  recorded : Recorded machine (settings.shelvesPath root.toPath) key record

/-- Every record of a listing is that of an entry. -/
theorem exists_listedAt {records : Shelves} (sound : machine.Sound)
    (listed : ((settings.list path).run machine).result = .ok records)
    (known : records.get? key = some record) :
    ∃ root place name, ListedAt settings machine path root place name key record := by
  obtain ⟨found, names, rooted, read, member, recorded⟩ := exists_of_list_ok listed known
  obtain ⟨root, rfl, isRoot⟩ := isRoot_of_findRoot sound rooted
  have absolute := isAbsolute_shelvesPath settings root
  rw [FileTree.namesAt, FileTree.locate_base _ _ _ absolute] at read
  split at read
  · rename_i place located
    obtain rfl := Except.ok.inj read
    obtain ⟨name, inside, spelled⟩ := List.mem_map.1 member
    have isEntry := sound.tree.named name place ((machine.tree.mem_names_iff place name).1 inside)
    exact ⟨root, place, name, rooted, located, inside, isEntry, spelled.symm, recorded.toRecorded⟩
  all_goals cases read

theorem ListedAt.isPart (listedAt : ListedAt settings machine path root place name key record) :
    Path.IsPart key :=
  listedAt.spelled ▸ isPart_decodeEscaped listedAt.isEntry

/-- What a key stands for in the directory of shelves is read off the path of its record. -/
theorem ofText_patchPath {records : Shelves} (sound : machine.Sound)
    (listed : ((settings.list path).run machine).result = .ok records)
    (known : records.get? key = some record) :
    ∃ root, ((findRoot path).run machine).result = .ok root ∧ IsShelfKey key ∧
      Path.ofText record.patchPath = (settings.shelvesPath root).child key := by
  obtain ⟨root, place, name, listedAt⟩ := exists_listedAt sound listed known
  obtain ⟨found, same, isRoot⟩ := isRoot_of_findRoot sound listedAt.rooted
  refine ⟨_, listedAt.rooted, listedAt.recorded.toIsShelfKey, ?_⟩
  rw [listedAt.recorded.patchPath, same]
  refine Path.ofText_toText (isAbsolute_shelvesPath settings found) fun other inside => ?_
  rcases List.mem_append.1 inside with higher | last
  · exact isPart_of_mem_shelvesPath sound.tree isRoot other higher
  · exact List.mem_singleton.1 last ▸ listedAt.isPart

/-- The entries of the directory with names of patch files are regular files. -/
def OnlyRegularPatches (tree : FileTree) (place : Location) : Prop :=
  ∀ name ∈ tree.names place, (Utf8.decodeEscaped name).endsWith Shelf.patchSuffix = true →
    ∃ content modified, tree.get? (name :: place) = some (.file content modified)

namespace ListedAt

/-- A regular file is one for the store as well. -/
theorem isFile (listedAt : ListedAt settings machine path root place name key record)
    {content : Bytes} {modified : FileTime}
    (stands : machine.tree.get? (name :: place) = some (.file content modified)) :
    machine.tree.isFile machine.directory ((settings.shelvesPath root.toPath).child key) =
      .ok true := by
  have absolute := isAbsolute_shelvesPath settings root
  have below : ((settings.shelvesPath root.toPath).child key).isAbsolute = true := absolute
  have encoded : Utf8.encode key = name := by
    rw [listedAt.spelled, Utf8.encode_decodeEscaped]
  have isName : IsEntryName key :=
    listedAt.spelled ▸ FileTree.isEntryName_decodeEscaped listedAt.isEntry
  have noLink : ∀ target, machine.tree.get? (Utf8.encode key :: place) ≠ some (.link target) := by
    simp [encoded, stands]
  obtain ⟨status, found⟩ := listedAt.recorded.status
  rw [FileTree.status, FileTree.locate_base _ _ _ below] at found
  rw [FileTree.isFile, FileTree.probe, FileTree.locate_base _ _ _ below]
  split at found
  · rename_i spot entry located
    obtain ⟨same, -⟩ := FileTree.eq_spotIn_of_locate_child absolute isName listedAt.leads
      (.inr noLink) located
    rw [located, same, encoded, FileTree.spotIn_of_some stands]
    rfl
  all_goals cases found

/-- Put to the name of the shelf, the suffix leads back to the file. -/
theorem existingPatch (listedAt : ListedAt settings machine path root place name key record)
    (isFile : machine.tree.isFile machine.directory
      ((settings.shelvesPath root.toPath).child key) = .ok true) :
    ((existingPatch (settings.shelvesPath root.toPath) (Shelf.nameOf key)).run machine).result =
      .ok ((settings.shelvesPath root.toPath).child key) := by
  have isKey := listedAt.recorded.toIsShelfKey
  have again : Shelf.nameOf key ++ Shelf.patchSuffix = key := isKey.keyOf_nameOf
  have noNull : (Shelf.nameOf key).holds '\x00' = false := by
    obtain ⟨lead, shown⟩ := (settings.shelvesPath root.toPath).exists_toText_child
    have clean := listedAt.recorded.noNull
    rw [listedAt.recorded.patchPath, shown, ← again, Text.holds, List.any_append,
      List.any_append, Bool.or_eq_false_iff, Bool.or_eq_false_iff] at clean
    exact clean.2.1
  have named : shelfFile (settings.shelvesPath root.toPath) (Shelf.nameOf key)
      Shelf.patchSuffix = .ok ((settings.shelvesPath root.toPath).child key) := by
    have joined : settings.shelvesPath root.toPath / Path.ofText key =
        (settings.shelvesPath root.toPath).child key := by
      rw [Path.ofText_of_isPart listedAt.isPart]
      rfl
    rw [shelfFile, again, joined, isKey.filled, noNull, Path.parent_child]
    simp
  rw [WorkingCopyStore.existingPatch, (Effect.Reads.ofChecked _).run_bind, Effect.run_ofChecked,
    named]
  simp only [mapError_ok]
  rw [(Machine.reads_access _).run_bind, Machine.run_access, isFile]
  rfl

end ListedAt

/-! ### Applying what was found -/

section Client

variable {found : Path} {subcommand : Text} {arguments : List Text}

/-- That the client is to be called is logged, whether or not it can be. -/
theorem logged_runClient :
    .logged (settings.callRecord found subcommand arguments) ∈
      ((settings.runClient found subcommand arguments).run machine).events := by
  by_cases called : settings.CanRun machine found subcommand arguments
  · rw [run_runClient called]
    exact List.mem_cons_self
  · obtain ⟨reason, stopped⟩ := exists_run_runClient called
    rw [stopped]
    exact List.mem_cons_self

/-- The client is called for nothing else. -/
theorem eq_of_mem_calls_runClient {call : ProgramCall}
    (made : call ∈ Activity.calls
      ((settings.runClient found subcommand arguments).run machine).events) :
    call = settings.clientCall machine found subcommand arguments := by
  by_cases called : settings.CanRun machine found subcommand arguments
  · rw [run_runClient called] at made
    exact List.mem_singleton.1 made
  · obtain ⟨reason, stopped⟩ := exists_run_runClient called
    rw [stopped] at made
    cases made

/-- A call of the client is no progress that is reported. -/
theorem unlike_notified_of_mem_runClient {activity : Activity}
    (member : activity ∈ ((settings.runClient found subcommand arguments).run machine).events)
    (event : Notification) : activity ≠ .notified event := by
  rintro rfl
  by_cases called : settings.CanRun machine found subcommand arguments
  · rw [run_runClient called] at member
    simp at member
  · obtain ⟨reason, stopped⟩ := exists_run_runClient called
    rw [stopped] at member
    simp at member

end Client

section Found

variable {found patchPath : Path} {shelf : Text} {keepLocal dryRun : Bool}
  (rooted : ((findRoot path).run machine).result = .ok found)
  (looked : ((existingPatch (settings.shelvesPath found) shelf).run machine).result =
    .ok patchPath)

include rooted looked

/-- However it is listened to, as long as only progress is refused, the store begins with the call
of the client, and calls no program after that. -/
theorem exists_events_apply_of_found {audience : Audience Activity}
    (takes : ∀ activity, (∀ event, activity ≠ .notified event) → audience activity = none) :
    ∃ later, ((settings.apply shelf path keepLocal dryRun).runBefore audience machine).events =
        ((settings.runClient found "patch" (patchArguments patchPath dryRun)).run
          machine).events ++ later ∧
      Activity.calls later = [] := by
  have taken : audience.Takes ((settings.runClient found "patch"
      (patchArguments patchPath dryRun)).run machine).events :=
    fun activity member => takes activity (unlike_notified_of_mem_runClient member)
  rw [apply, (reads_findRoot path).runBefore_bind_of_ok rooted,
    (reads_existingPatch _ _).runBefore_bind_of_ok looked,
    Effect.runBefore_bind_of_takes taken, Effect.chain]
  split
  · exact ⟨[], (List.append_nil _).symm, rfl⟩
  · exact ⟨_, rfl, makesNoCall_finishApply _ _ _ _ _ _ _⟩

end Found

end WorkingCopyStore

end PatchShelf
