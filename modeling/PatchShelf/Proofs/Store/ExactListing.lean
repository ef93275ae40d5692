/-
Module: PatchShelf.Proofs.Store.ExactListing
Purpose: What a directory of regular files is listed as, to the last record.
Main exports:
  WorkingCopyStore.IsPatchFile, WorkingCopyStore.Mirrors, WorkingCopyStore.AllInReach,
  WorkingCopyStore.HoldsOnlyFiles, WorkingCopyStore.DiffersAside,
  WorkingCopyStore.listed_exactly, WorkingCopyStore.listings_beyond_limits
-/
import PatchShelf.Proofs.FileTime
import PatchShelf.Proofs.Store.Limits
import PatchShelf.Proofs.Store.ListedFiles

/-!
Where the directory of shelves holds regular files only, a listing has one record for each patch
file with a name before the suffix, and the record says what the file and the log file beside it
say.  Nothing else in the directory matters to it.  The listing fails only if the path of one of
these patch files is too long for the system, or if its time falls out of the calendar when it is
read as a number of seconds.
-/

namespace PatchShelf

namespace WorkingCopyStore

open FileTree (EntryPath IsEntryName)

variable {settings : WorkingCopyStore} {machine : Machine} {directory root : Path}
  {place : Location}

/-- A file of the directory with the name of a patch file that has a shelf name before the
suffix. -/
structure IsPatchFile (tree : FileTree) (place : Location) (name : FileName) (content : Bytes)
    (modified : FileTime) : Prop where
  stands : tree.get? (name :: place) = some (.file content modified)
  isKey : IsShelfKey (Utf8.decodeEscaped name)

/-- The name of the log file that belongs to a patch file. -/
def logBeside (name : FileName) : FileName :=
  Utf8.encode (Shelf.nameOf (Utf8.decodeEscaped name) ++ Shelf.logSuffix)

/-- The record says of a patch file what there is to say of it. -/
structure Mirrors (tree : FileTree) (directory : Path) (place : Location) (name : FileName)
    (content : Bytes) (modified : FileTime) (record : ShelfRecord) : Prop
    extends Presents directory (Utf8.decodeEscaped name) record where
  size : record.size = content.length
  time : modified.read = .ok record.modified
  message : record.message = wordsAt tree (logBeside name :: place)

/-- The system takes the path of the patch file, and its time is one of the calendar when it is
read as seconds. -/
structure InReach (directory : Path) (name : FileName) (modified : FileTime) : Prop where
  fits : (directory.child (Utf8.decodeEscaped name)).Fits
  timely : ∃ moment, modified.read = .ok moment

/-- All patch files of the directory are in reach. -/
def AllInReach (tree : FileTree) (directory : Path) (place : Location) : Prop :=
  ∀ name content modified, IsPatchFile tree place name content modified →
    InReach directory name modified

/-- A directory of regular files. -/
structure OnlyFiles (tree : FileTree) (directory : Path) (place : Location) : Prop where
  leads : tree.Leads directory place
  files : ∀ name entry, tree.get? (name :: place) = some entry → entry.isFile = true

/-- The machine has a working copy whose directory of shelves holds regular files only. -/
structure HoldsOnlyFiles (settings : WorkingCopyStore) (machine : Machine) (path : Text)
    (root : Path) (place : Location) : Prop where
  sound : machine.Sound
  found : ((findRoot path).run machine).result = .ok root
  only : OnlyFiles machine.tree (settings.shelvesPath root) place

/-- What the name stands for is a patch file, or the log file of one. -/
inductive Counts (tree : FileTree) (place : Location) : FileName → Prop
  | patch {name : FileName} (isKey : IsShelfKey (Utf8.decodeEscaped name)) : Counts tree place name
  | log {name : FileName} {content : Bytes} {modified : FileTime}
      (patch : IsPatchFile tree place name content modified) : Counts tree place (logBeside name)

/-- The path of the log file that belongs to a patch file. -/
theorem entryPath_logBeside {key : Text} (path : EntryPath directory key)
    (isKey : IsShelfKey key) : EntryPath directory (Shelf.nameOf key ++ Shelf.logSuffix) := by
  have again : Shelf.nameOf key ++ Shelf.patchSuffix = key := isKey.keyOf_nameOf
  obtain ⟨lead, shown⟩ := directory.exists_toText_child
  have clean := path.fits.noNull
  have whole := path.name.whole
  rw [← again] at path whole
  rw [shown, ← again, Text.holds, List.any_append, List.any_append, Bool.or_eq_false_iff,
    Bool.or_eq_false_iff] at clean
  apply entryPath_log _ clean.2.1 path
  exact fun member => whole (List.mem_append_left _ member)

/-- Where all are files, no name is a link. -/
theorem noLink_of_onlyFiles {tree : FileTree} (only : OnlyFiles tree directory place)
    (name : FileName) (target : Bytes) : tree.get? (name :: place) ≠ some (.link target) := by
  intro stands
  cases only.files name _ stands

/-- The path of a patch file, if the system takes it. -/
theorem IsPatchFile.entryPath {tree : FileTree} {name : FileName} {content : Bytes}
    {modified : FileTime} (isPatch : IsPatchFile tree place name content modified)
    (sound : tree.Sound) (absolute : directory.isAbsolute = true)
    (fits : (directory.child (Utf8.decodeEscaped name)).Fits) :
    EntryPath directory (Utf8.decodeEscaped name) := by
  have isEntry := sound.named name place (by simp [isPatch.stands])
  have encoded : Utf8.encode (Utf8.decodeEscaped name) = name := Utf8.encode_decodeEscaped name
  exact ⟨absolute, FileTree.isEntryName_decodeEscaped isEntry, encoded.symm ▸ isEntry.short, fits⟩

/-- The status of a patch file is that of the file, by its path. -/
theorem IsPatchFile.status {name : FileName} {content : Bytes} {modified : FileTime}
    (isPatch : IsPatchFile machine.tree place name content modified)
    (patchPath : EntryPath directory (Utf8.decodeEscaped name))
    (leads : machine.tree.Leads directory place) :
    machine.tree.status machine.directory (directory.child (Utf8.decodeEscaped name)) =
      .ok (Entry.file content modified).status := by
  apply patchPath.status leads machine.directory _ rfl
  rw [Utf8.encode_decodeEscaped]
  exact isPatch.stands

/-- The record of a patch file in reach is added, with all that the files say. -/
theorem exists_adds (only : OnlyFiles machine.tree directory place) (sound : machine.tree.Sound)
    (absolute : directory.isAbsolute = true) {name : FileName} {content : Bytes}
    {modified : FileTime} (isPatch : IsPatchFile machine.tree place name content modified)
    (reach : InReach directory name modified) :
    ∃ record, Mirrors machine.tree directory place name content modified record ∧
      Adds machine directory (Utf8.decodeEscaped name) record := by
  obtain ⟨fits, moment, timely⟩ := reach
  have isKey := isPatch.isKey
  have patchPath := isPatch.entryPath sound absolute fits
  have found := isPatch.status patchPath only.leads
  have read := run_readMessage_of_entryPath (entryPath_logBeside patchPath isKey) only.leads
    (noLink_of_onlyFiles only _)
  have adds := adds_of_reads isKey found timely (congrArg Outcome.result read)
  exact ⟨_, ⟨⟨rfl, rfl⟩, rfl, timely, rfl⟩, adds⟩

/-- A patch file has one record. -/
theorem Mirrors.unique {tree : FileTree} {name : FileName} {content : Bytes} {modified : FileTime}
    {one two : ShelfRecord} (first : Mirrors tree directory place name content modified one)
    (second : Mirrors tree directory place name content modified two) : one = two := by
  have named := first.named.trans second.named.symm
  have patchPath := first.patchPath.trans second.patchPath.symm
  have time := Except.ok.inj (first.time.symm.trans second.time)
  have size := first.size.trans second.size.symm
  have message := first.message.trans second.message.symm
  cases one
  cases two
  simp only at named patchPath time size message
  subst named patchPath time size message
  rfl

/-- The record is that of a patch file with this key. -/
def ShowsFile (tree : FileTree) (directory : Path) (place : Location) (key : Text)
    (record : ShelfRecord) : Prop :=
  ∃ name content modified, IsPatchFile tree place name content modified ∧
    key = Utf8.decodeEscaped name ∧ Mirrors tree directory place name content modified record

/-- What a listing shows has the key of a shelf. -/
theorem ShowsFile.isShelfKey {tree : FileTree} {key : Text} {record : ShelfRecord}
    (shown : ShowsFile tree directory place key record) : IsShelfKey key := by
  obtain ⟨name, content, modified, isPatch, rfl, -⟩ := shown
  exact isPatch.isKey

/-- The record of a file that is shown mirrors it. -/
theorem ShowsFile.mirrors {tree : FileTree} {name : FileName} {content : Bytes}
    {modified : FileTime} {record : ShelfRecord}
    (shown : ShowsFile tree directory place (Utf8.decodeEscaped name) record)
    (isPatch : IsPatchFile tree place name content modified) :
    Mirrors tree directory place name content modified record := by
  obtain ⟨other, more, time, alsoPatch, spelled, mirrors⟩ := shown
  obtain rfl : name = other := by
    rw [← Utf8.encode_decodeEscaped name, spelled, Utf8.encode_decodeEscaped]
  obtain ⟨rfl, rfl⟩ : content = more ∧ modified = time := by
    simpa using isPatch.stands.symm.trans alsoPatch.stands
  exact mirrors

/-- By its key, one record shows it. -/
theorem ShowsFile.unique {tree : FileTree} {key : Text} {one two : ShelfRecord}
    (first : ShowsFile tree directory place key one)
    (second : ShowsFile tree directory place key two) : one = two := by
  obtain ⟨name, content, modified, isPatch, rfl, mirrors⟩ := first
  exact mirrors.unique (second.mirrors isPatch)

/-- A patch file is among the keys. -/
theorem mem_keysIn_of_isPatchFile {tree : FileTree} {name : FileName} {content : Bytes}
    {modified : FileTime} (isPatch : IsPatchFile tree place name content modified) :
    Utf8.decodeEscaped name ∈ keysIn tree place := by
  apply List.mem_filter.2
  refine ⟨List.mem_map.2 ⟨name, ?_, rfl⟩, isPatch.isKey.ends⟩
  exact (tree.mem_names_iff place name).2 (by simp [isPatch.stands])

/-- Each key is that of a patch file, where all are files. -/
theorem exists_isPatchFile_of_mem_keysIn {tree : FileTree} {key : Text}
    (only : OnlyFiles tree directory place) (member : key ∈ keysIn tree place)
    (isKey : IsShelfKey key) :
    ∃ name content modified, IsPatchFile tree place name content modified ∧
      key = Utf8.decodeEscaped name := by
  obtain ⟨name, inside, rfl⟩ := List.mem_map.1 (List.mem_filter.1 member).1
  obtain ⟨entry, stands⟩ :=
    Option.ne_none_iff_exists'.1 ((tree.mem_names_iff place name).1 inside)
  cases entry with
  | file content modified => exact ⟨name, content, modified, ⟨stands, isKey⟩, rfl⟩
  | directory => cases only.files name _ stands
  | link target => cases only.files name _ stands

/-- If all of them are in reach, the records of a directory of files are those of its patch
files. -/
theorem exists_run_list_of_onlyFiles {path : Text}
    (holds : HoldsOnlyFiles settings machine path root place)
    (reach : AllInReach machine.tree (settings.shelvesPath root) place) :
    ∃ records, ((settings.list path).run machine).result = .ok records ∧
      ∀ key record, records.get? key = some record ↔
        ShowsFile machine.tree (settings.shelvesPath root) place key record := by
  obtain ⟨sound, found, only⟩ := holds
  have absolute := isAbsolute_of_findRoot settings sound found
  have each : ∀ key ∈ keysIn machine.tree place, IsShelfKey key → ∃ record,
      ShowsFile machine.tree (settings.shelvesPath root) place key record ∧
        Adds machine (settings.shelvesPath root) key record := by
    intro key member isKey
    obtain ⟨name, content, modified, isPatch, rfl⟩ :=
      exists_isPatchFile_of_mem_keysIn only member isKey
    obtain ⟨record, mirrors, adds⟩ := exists_adds only sound.tree absolute isPatch
      (reach name content modified isPatch)
    exact ⟨record, ⟨name, content, modified, isPatch, rfl, mirrors⟩, adds⟩
  obtain ⟨records, listed, complete, shows⟩ :=
    exists_run_list_of_adds found absolute only.leads each
  refine ⟨records, listed, fun key record => ⟨fun known => ?_, fun shown => ?_⟩⟩
  · exact (shows key record known).2.2
  · obtain ⟨name, content, modified, isPatch, rfl, mirrors⟩ := shown
    obtain ⟨other, known, alsoShown⟩ :=
      complete _ (mem_keysIn_of_isPatchFile isPatch) isPatch.isKey
    rw [known, alsoShown.unique ⟨name, content, modified, isPatch, rfl, mirrors⟩]

/-- A listing that goes well had all patch files in reach. -/
theorem allInReach_of_list_ok {path : Text} {records : Shelves}
    (holds : HoldsOnlyFiles settings machine path root place)
    (listed : ((settings.list path).run machine).result = .ok records) :
    AllInReach machine.tree (settings.shelvesPath root) place := by
  intro name content modified isPatch
  obtain ⟨sound, found, only⟩ := holds
  have absolute := isAbsolute_of_findRoot settings sound found
  obtain ⟨status, moment, asked, timely⟩ :=
    timely_of_list_ok listed found absolute only.leads (mem_keysIn_of_isPatchFile isPatch)
      isPatch.isKey
  have below : ((settings.shelvesPath root).child (Utf8.decodeEscaped name)).isAbsolute = true :=
    absolute
  have fits := FileTree.fits_of_status below asked
  have same := isPatch.status (isPatch.entryPath sound.tree absolute fits) only.leads
  obtain rfl := Except.ok.inj (asked.symm.trans same)
  exact ⟨fits, moment, timely⟩

/-- In this directory the trees differ at most in files that do not count. -/
def DiffersAside (one two : FileTree) (place : Location) : Prop :=
  ∀ name, Counts one place name → two.get? (name :: place) = one.get? (name :: place)

namespace DiffersAside

variable {one two : FileTree} (aside : DiffersAside one two place)

include aside

/-- Trees that agree on the directory have the same patch files. -/
theorem isPatchFile_iff (name : FileName) (content : Bytes) (modified : FileTime) :
    IsPatchFile two place name content modified ↔ IsPatchFile one place name content modified := by
  constructor
  · rintro ⟨stands, isKey⟩
    exact ⟨(aside name (.patch isKey)).symm.trans stands, isKey⟩
  · rintro ⟨stands, isKey⟩
    exact ⟨(aside name (.patch isKey)).trans stands, isKey⟩

/-- Where trees agree on the directory, all patch files are in reach in one if they are in the
other. -/
theorem allInReach (reach : AllInReach one directory place) :
    AllInReach two directory place := by
  intro name content modified isPatch
  exact reach name content modified ((aside.isPatchFile_iff name content modified).1 isPatch)

/-- Records mirror the same files in them. -/
theorem mirrors_iff {name : FileName} {content : Bytes} {modified : FileTime}
    (isPatch : IsPatchFile one place name content modified) (record : ShelfRecord) :
    Mirrors two directory place name content modified record ↔
      Mirrors one directory place name content modified record := by
  have words : wordsAt two (logBeside name :: place) = wordsAt one (logBeside name :: place) := by
    rw [wordsAt, wordsAt, aside _ (.log isPatch)]
  constructor
  · rintro ⟨presents, size, time, message⟩
    exact ⟨presents, size, time, message.trans words⟩
  · rintro ⟨presents, size, time, message⟩
    exact ⟨presents, size, time, message.trans words.symm⟩

/-- Trees that agree on the directory are shown by the same records. -/
theorem showsFile_iff (key : Text) (record : ShelfRecord) :
    ShowsFile two directory place key record ↔ ShowsFile one directory place key record := by
  constructor
  · rintro ⟨name, content, modified, isPatch, spelled, mirrors⟩
    have also := (aside.isPatchFile_iff name content modified).1 isPatch
    exact ⟨name, content, modified, also, spelled, (aside.mirrors_iff also record).1 mirrors⟩
  · rintro ⟨name, content, modified, isPatch, spelled, mirrors⟩
    have also := (aside.isPatchFile_iff name content modified).2 isPatch
    exact ⟨name, content, modified, also, spelled, (aside.mirrors_iff isPatch record).2 mirrors⟩

end DiffersAside

/-- A listing of a directory of files leaves everything as it is.  It succeeds if and only if all
patch files are in reach.  Then it has a record for each of them and no other; the record says
what the file and the log file beside it say, and its time is that of the file, as far as that is
kept as a number of seconds.  Keys are told apart by the names that they stand for.  Files that
do not count make no difference. -/
theorem listed_exactly {settings : WorkingCopyStore} {machine : Machine} {path : Text}
    {root : Path} {place : Location} (holds : HoldsOnlyFiles settings machine path root place) :
    let outcome := (settings.list path).run machine
    outcome.world = machine ∧
      ((∃ records, outcome.result = .ok records) ↔
        AllInReach machine.tree (settings.shelvesPath root) place) ∧
      ∀ records, outcome.result = .ok records →
        (∀ key record, records.get? key = some record ↔
          ∃ name content modified, IsPatchFile machine.tree place name content modified ∧
            key = Utf8.decodeEscaped name ∧
            Mirrors machine.tree (settings.shelvesPath root) place name content modified record) ∧
        (∀ name content modified record,
          IsPatchFile machine.tree place name content modified →
          records.get? (Utf8.decodeEscaped name) = some record →
          modified.Near →
            |record.modified.micros * nanosPerMicro - modified.sinceEpoch| < nanosPerMicro ∧
            ∀ moment : Instant, modified = .ofInstant moment → record.modified = moment) ∧
        (∀ one two, records.get? one ≠ none → records.get? two ≠ none →
          Shelf.nameOf one = Shelf.nameOf two → one = two) ∧
        ∀ other, HoldsOnlyFiles settings other path root place →
          DiffersAside machine.tree other.tree place →
            ∃ others, ((settings.list path).run other).result = .ok others ∧
              ∀ key, others.get? key = records.get? key := by
  intro outcome
  refine ⟨(onlyLogs_list settings path machine).1, ⟨?_, fun reach => ?_⟩, ?_⟩
  · rintro ⟨records, listed⟩
    exact allInReach_of_list_ok holds listed
  · obtain ⟨records, listed, -⟩ := exists_run_list_of_onlyFiles holds reach
    exact ⟨records, listed⟩
  intro records listed
  have reach := allInReach_of_list_ok holds listed
  obtain ⟨same, alike, shows⟩ := exists_run_list_of_onlyFiles holds reach
  obtain rfl := Except.ok.inj (listed.symm.trans alike)
  refine ⟨shows, ?_, ?_, ?_⟩
  · intro name content modified record isPatch known near
    have mirrors := ((shows _ record).1 known).mirrors isPatch
    refine ⟨?_, fun moment whole => ?_⟩
    · rw [FileTime.micros_of_read mirrors.time]
      exact FileTime.abs_micros_sub_lt near
    · have time := mirrors.time
      rw [whole] at near time
      exact FileTime.eq_of_read_ofInstant near time
  · intro one two first second same
    obtain ⟨record, known⟩ := Option.ne_none_iff_exists'.1 first
    obtain ⟨other, alsoKnown⟩ := Option.ne_none_iff_exists'.1 second
    rw [← ((shows one record).1 known).isShelfKey.keyOf_nameOf, same,
      ((shows two other).1 alsoKnown).isShelfKey.keyOf_nameOf]
  · intro other alsoHolds aside
    obtain ⟨others, alsoListed, also⟩ :=
      exists_run_list_of_onlyFiles alsoHolds (aside.allInReach reach)
    refine ⟨others, alsoListed, fun key => ?_⟩
    -- What the record of a key says is determined by the files that count.
    apply Option.ext
    intro record
    exact (also key record).trans ((aside.showsFile_iff key record).trans (shows key record).symm)

/-! ### A directory with files that do not count -/

instance (key : Text) : Decidable (IsShelfKey key) :=
  decidable_of_iff (key.endsWith Shelf.patchSuffix = true ∧ (Shelf.nameOf key).isBlank = false)
    ⟨fun ⟨ends, filled⟩ => ⟨ends, filled⟩, fun ⟨ends, filled⟩ => ⟨ends, filled⟩⟩

/-- A directory holds only files if each of its names is that of a file. -/
theorem onlyFiles_of_names {tree : FileTree} (leads : tree.Leads directory place)
    (each : ∀ name ∈ tree.names place, (tree.get? (name :: place)).all Entry.isFile = true) :
    OnlyFiles tree directory place := by
  refine ⟨leads, fun name entry stands => ?_⟩
  have isFile := each name ((tree.mem_names_iff place name).2 (by simp [stands]))
  rw [stands] at isFile
  exact isFile

/-- Only what is left out of the first tree or is another file in the second needs a look. -/
theorem differsAside_of_names {one two : FileTree}
    (fewer : ∀ name ∈ two.names place, name ∈ one.names place)
    (each : ∀ name ∈ one.names place, two.get? (name :: place) = one.get? (name :: place) ∨
      ¬ IsShelfKey (Utf8.decodeEscaped name) ∧ ∀ other ∈ one.names place,
        IsShelfKey (Utf8.decodeEscaped other) → logBeside other ≠ name) :
    DiffersAside one two place := by
  intro name counts
  by_cases known : name ∈ one.names place
  · apply (each name known).resolve_right
    rintro ⟨noKey, noLog⟩
    cases counts with
    | patch isKey => exact noKey isKey
    | log isPatch =>
        apply noLog _ ((one.mem_names_iff place _).2 _) isPatch.isKey rfl
        simp [isPatch.stands]
  · have absent := mt (fewer name) known
    rw [one.mem_names_iff, not_not] at known
    rw [two.mem_names_iff, not_not] at absent
    rw [known, absent]

/-- The directory of shelves in a working copy. -/
def shelvesIn (root : Location) : Location :=
  Utf8.encode "shelves" :: Utf8.encode ".svn" :: root

/-- A machine with a working copy in which one patch file is saved. -/
def onePatchMachine (root : Location) (name : FileName) (modified : FileTime) : Machine where
  tree := (treeDownTo (shelvesIn root)).put (name :: shelvesIn root) (.file [] modified)
  directory := []
  clock := .epoch
  programs := .empty

/-- Only the patch and the directories above it stand in this tree. -/
theorem get?_onePatchMachine (root location : Location) (name : FileName) (modified : FileTime) :
    (onePatchMachine root name modified).tree.get? location =
      if location = name :: shelvesIn root then some (.file [] modified)
      else if location <:+ shelvesIn root then some .directory else none := by
  rw [onePatchMachine, FileTree.get?_put _ _ _ _ (List.cons_ne_nil _ _), get?_treeDownTo]

section Lone

variable {root : Location} {name : FileName}

theorem not_suffix_shelvesIn (root : Location) (name : FileName) :
    ¬ name :: shelvesIn root <:+ shelvesIn root := by
  intro suffix
  exact absurd suffix.length_le (by simp)

theorem get?_onePatchMachine_of_suffix (name : FileName) (modified : FileTime) {location : Location}
    (suffix : location <:+ shelvesIn root) :
    (onePatchMachine root name modified).tree.get? location = some .directory := by
  have apart : location ≠ name :: shelvesIn root := by
    rintro rfl
    exact not_suffix_shelvesIn root name suffix
  rw [get?_onePatchMachine, if_neg apart, if_pos suffix]

/-- The tree of one patch is sound, if all its names can name entries. -/
theorem sound_onePatchMachine (modified : FileTime)
    (valid : ∀ part ∈ name :: shelvesIn root, FileName.IsEntry part) :
    (onePatchMachine root name modified).Sound := by
  rw [List.forall_mem_cons] at valid
  refine ⟨(sound_treeDownTo valid.2).put _ valid.1 (FileTree.noWay_of_none ?_) ?_, fun _ => rfl⟩
  · exact (get?_treeDownTo _ _).trans (if_neg (not_suffix_shelvesIn root name))
  · rw [get?_treeDownTo, if_pos List.suffix_rfl]

theorem shelvesPath_toPath (root : Location) :
    plainSettings.shelvesPath root.toPath = Location.toPath (shelvesIn root) := by
  rw [shelvesPath_eq, shelvesIn, Location.toPath_cons, Location.toPath_cons]
  rfl

/-- The tree of one patch has its working copy at the given root. -/
theorem isRoot_onePatchMachine (modified : FileTime)
    (valid : ∀ part ∈ name :: shelvesIn root, FileName.IsEntry part)
    (fits : (Location.toPath (shelvesIn root)).Fits) :
    IsRoot (onePatchMachine root name modified).tree root := by
  have sound := (sound_onePatchMachine modified valid).tree
  have admin : Utf8.encode ".svn" :: root <:+ shelvesIn root := List.suffix_cons _ _
  rw [shelvesIn, Location.toPath_cons] at fits
  have area := sound.leads_toPath (get?_onePatchMachine_of_suffix name modified admin)
    (fits.of_child rfl)
  rw [Location.toPath_cons] at area
  exact ⟨get?_onePatchMachine_of_suffix name modified ((List.suffix_cons _ _).trans admin), _, area⟩

/-- The patch file is all that the directory holds, wherever the working copy is. -/
theorem holdsOnlyFiles_onePatchMachine (modified : FileTime)
    (valid : ∀ part ∈ name :: shelvesIn root, FileName.IsEntry part)
    (fits : (Location.toPath (shelvesIn root)).Fits) :
    HoldsOnlyFiles plainSettings (onePatchMachine root name modified) root.toPath.toText root.toPath
      (shelvesIn root) := by
  have sound := sound_onePatchMachine modified valid
  refine ⟨sound, findRoot_of_isRoot sound.tree (isRoot_onePatchMachine modified valid fits), ?_, ?_⟩
  · rw [shelvesPath_toPath]
    exact sound.tree.leads_toPath
      (get?_onePatchMachine_of_suffix name modified List.suffix_rfl) fits
  · intro other entry stands
    rw [get?_onePatchMachine, if_neg (not_suffix_shelvesIn root other)] at stands
    split at stands
    · obtain rfl := Option.some.inj stands
      rfl
    · cases stands

end Lone

/-- The directory of shelves in the working copy `/wc`. -/
def plainPlace : Location :=
  shelvesIn [Utf8.encode "wc"]

/-- A machine with one patch file in it. -/
def plainLone (modified : FileTime) : Machine :=
  onePatchMachine [Utf8.encode "wc"] (Utf8.encode "n.patch") modified

/-- The log file is there as well. -/
def neatMachine : Machine :=
  { plainLone .epoch with
    tree := (plainLone .epoch).tree.put (Utf8.encode "n.log" :: plainPlace)
      (.file (Utf8.encode "why\n") .epoch) }

/-- And so are a patch without a name, a log file of no patch, and notes. -/
def mixedMachine : Machine :=
  { neatMachine with
    tree := ((neatMachine.tree.put (Utf8.encode ".patch" :: plainPlace) (.file [] .epoch)).put
      (Utf8.encode "m.log" :: plainPlace) (.file [] .epoch)).put
      (Utf8.encode "notes.txt" :: plainPlace) (.file [] .epoch) }

/-- A value that came out is what the run ended with. -/
theorem eq_ok_of_toOption {α : Type} {ended : Except Stop α} {value : α}
    (given : ended.toOption = some value) : ended = .ok value := by
  cases ended with
  | error reason => cases given
  | ok other => exact congrArg Except.ok (Option.some.inj given)

/-- What is beside the patch file and its log file makes no difference. -/
theorem listed_exactly_of_mixed :
    HoldsOnlyFiles plainSettings mixedMachine "/wc" ⟨.root, ["wc"]⟩ plainPlace ∧
      ((plainSettings.list "/wc").run mixedMachine).world = mixedMachine ∧
      ∃ records record others,
        ((plainSettings.list "/wc").run mixedMachine).result = .ok records ∧
        records.keys = [("n.patch" : Text)] ∧ records.get? "n.patch" = some record ∧
        record.message = "why" ∧ record.modified = .epoch ∧
        ((plainSettings.list "/wc").run neatMachine).result = .ok others ∧
        ∀ key, others.get? key = records.get? key := by
  have holds : HoldsOnlyFiles plainSettings mixedMachine "/wc" ⟨.root, ["wc"]⟩ plainPlace := by
    refine ⟨⟨by decide +kernel, fun _ => rfl⟩, by decide +kernel, onlyFiles_of_names ?_ ?_⟩
    · rw [FileTree.Leads]
      decide +kernel
    · decide +kernel
  have neat : HoldsOnlyFiles plainSettings neatMachine "/wc" ⟨.root, ["wc"]⟩ plainPlace := by
    refine ⟨⟨by decide +kernel, fun _ => rfl⟩, by decide +kernel, onlyFiles_of_names ?_ ?_⟩
    · rw [FileTree.Leads]
      decide +kernel
    · decide +kernel
  have aside : DiffersAside mixedMachine.tree neatMachine.tree plainPlace := by
    apply differsAside_of_names
    · decide +kernel
    · decide +kernel
  have isPatch : IsPatchFile mixedMachine.tree plainPlace (Utf8.encode "n.patch") [] .epoch :=
    ⟨by decide +kernel, by decide +kernel⟩
  have shown : ((plainSettings.list "/wc").run mixedMachine).result.toOption.map
      (fun records => (records.keys, (records.get? "n.patch").map ShelfRecord.message)) =
        some ([("n.patch" : Text)], some ("why" : Text)) := by
    decide +kernel
  obtain ⟨records, listed, shows⟩ := Option.map_eq_some_iff.1 shown
  obtain ⟨keys, shows⟩ := Prod.mk.inj shows
  obtain ⟨record, known, message⟩ := Option.map_eq_some_iff.1 shows
  replace listed := eq_ok_of_toOption listed
  obtain ⟨unchanged, -, each⟩ := listed_exactly holds
  obtain ⟨-, times, -, same⟩ := each records listed
  have time := (times _ _ _ record isPatch known (by decide)).2 .epoch rfl
  obtain ⟨others, alsoListed, alike⟩ := same neatMachine neat aside
  exact ⟨holds, unchanged, records, record, others, listed, keys, known, message, time,
    alsoListed, alike⟩

/-! ### Beyond the limits -/

/-- The directory of this tree holds its one file. -/
theorem holdsOnlyFiles_plainLone (modified : FileTime) :
    HoldsOnlyFiles plainSettings (plainLone modified) "/wc" ⟨.root, ["wc"]⟩ plainPlace := by
  have root : Location.toPath [Utf8.encode "wc"] = ⟨.root, ["wc"]⟩ := by decide +kernel
  have text : (⟨.root, ["wc"]⟩ : Path).toText = "/wc" := by decide +kernel
  have holds : HoldsOnlyFiles plainSettings (plainLone modified)
      (Location.toPath [Utf8.encode "wc"]).toText (Location.toPath [Utf8.encode "wc"])
      plainPlace := by
    apply holdsOnlyFiles_onePatchMachine
    · decide +kernel
    · exact ⟨by decide +kernel, by decide +kernel⟩
  rw [root, text] at holds
  exact holds

/-- A time that is no whole number of microseconds. -/
def fineTime : FileTime := ⟨1700000000, 123456789, by decide⟩

/-- A whole number of microseconds, but more than 2 ^ 33 seconds after the start of 1970. -/
def lateTime : FileTime := .ofInstant ⟨8700000000000001, by decide⟩

/-- These two are listed as the next microsecond. -/
theorem exists_list_of_lost {modified : FileTime}
    (lost : modified ∈ [fineTime, lateTime]) :
    ∃ records record,
      ((plainSettings.list "/wc").run (plainLone modified)).result = .ok records ∧
      records.get? "n.patch" = some record ∧
      modified.sinceEpoch < record.modified.micros * nanosPerMicro := by
  have shown : (((plainSettings.list "/wc").run (plainLone modified)).result.toOption.bind
      fun records => records.get? "n.patch").any fun record =>
        decide (modified.sinceEpoch < record.modified.micros * nanosPerMicro) := by
    revert modified
    decide +kernel
  rw [Option.any_eq_true] at shown
  obtain ⟨record, known, later⟩ := shown
  rw [Option.bind_eq_some_iff] at known
  obtain ⟨records, listed, known⟩ := known
  exact ⟨records, record, eq_ok_of_toOption listed, known, of_decide_eq_true later⟩

/-- There is no listing with the last moment of the calendar, which is read as a later one. -/
theorem list_ne_ok_of_latest (records : Shelves) :
    ((plainSettings.list "/wc").run (plainLone lastMoment)).result ≠ .ok records := by
  intro listed
  have isPatch : IsPatchFile (plainLone lastMoment).tree plainPlace (Utf8.encode "n.patch") []
      lastMoment :=
    ⟨by decide +kernel, by decide +kernel⟩
  obtain ⟨-, moment, kept⟩ :=
    allInReach_of_list_ok (holdsOnlyFiles_plainLone _) listed _ _ _ isPatch
  cases kept

/-- A machine with a patch file that has a long name, far down. -/
def deepLone : Machine :=
  onePatchMachine deepRoot (Utf8.encode (deepRequest.name ++ Shelf.patchSuffix)) .epoch

/-- The directory deep below holds its one file. -/
theorem holdsOnlyFiles_deepLone :
    HoldsOnlyFiles plainSettings deepLone (Location.toPath deepRoot).toText
      (Location.toPath deepRoot) deepPlace := by
  apply holdsOnlyFiles_onePatchMachine _ _ fits_deepPlace
  rw [List.forall_mem_cons]
  exact ⟨by decide +kernel, fun part member => (names_deepPlace.1 part member).1⟩

/-- There is no listing with a patch file whose path is too long. -/
theorem list_ne_ok_of_long (records : Shelves) :
    ((plainSettings.list (Location.toPath deepRoot).toText).run deepLone).result ≠
      .ok records := by
  intro listed
  have spelled := allowedName_deep.1.kept.decode isSuffix_patch
  have isPatch : IsPatchFile deepLone.tree deepPlace
      (Utf8.encode (deepRequest.name ++ Shelf.patchSuffix)) [] .epoch := by
    refine ⟨(get?_onePatchMachine _ _ _ _).trans (if_pos rfl), ?_⟩
    rw [spelled]
    decide +kernel
  have reach := (allInReach_of_list_ok holdsOnlyFiles_deepLone listed _ _ _ isPatch).fits
  rw [spelled] at reach
  exact absurd reach.short (Nat.not_le.2 long_deep)

/-- The time of a file may not be kept to the nanosecond, or be so late that it is not kept to the
microsecond either, or be read as one after the last of the calendar, or its path may be too
long: then it is listed with another time, or nothing is listed. -/
theorem listings_beyond_limits :
    let deep := (Location.toPath deepRoot).toText
    (∀ modified ∈ [fineTime, lateTime],
      HoldsOnlyFiles plainSettings (plainLone modified) "/wc" ⟨.root, ["wc"]⟩ plainPlace ∧
      ∃ records record,
        ((plainSettings.list "/wc").run (plainLone modified)).result = .ok records ∧
        records.get? "n.patch" = some record ∧ .ofInstant record.modified ≠ modified) ∧
    (HoldsOnlyFiles plainSettings (plainLone lastMoment) "/wc" ⟨.root, ["wc"]⟩ plainPlace ∧
      ∀ records, ((plainSettings.list "/wc").run (plainLone lastMoment)).result ≠ .ok records) ∧
    HoldsOnlyFiles plainSettings deepLone deep (Location.toPath deepRoot) deepPlace ∧
      ∀ records, ((plainSettings.list deep).run deepLone).result ≠ .ok records := by
  intro deep
  refine ⟨fun modified lost => ⟨holdsOnlyFiles_plainLone modified, ?_⟩,
    ⟨holdsOnlyFiles_plainLone lastMoment, list_ne_ok_of_latest⟩, holdsOnlyFiles_deepLone,
    list_ne_ok_of_long⟩
  obtain ⟨records, record, listed, known, later⟩ := exists_list_of_lost lost
  refine ⟨records, record, listed, known, ?_⟩
  rintro rfl
  rw [FileTime.sinceEpoch_ofInstant] at later
  exact lt_irrefl _ later

end WorkingCopyStore

end PatchShelf
