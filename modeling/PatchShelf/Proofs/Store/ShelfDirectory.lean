/-
Module: PatchShelf.Proofs.Store.ShelfDirectory
Purpose: The map that a directory of shelf files stands for.
Main exports:
  WorkingCopyStore.OnlyShelfFiles, WorkingCopyStore.savedIn,
  WorkingCopyStore.holdsShelves_savedIn, WorkingCopyStore.exists_represents
-/
import PatchShelf.Proofs.Store.SavedShelves

/-!
A directory that holds nothing but patch files and message files, each message file
beside its patch file, stands for a map: the names of the patch files, with the texts
that are read from the files.
-/

namespace PatchShelf

/-- A dictionary of pairs whose values go by the keys has these keys and values. -/
theorem Dictionary.get?_ofList_map {κ α : Type} [DecidableEq κ] (keys : List κ) (value : κ → α)
    (key : κ) (found : α) :
    (Dictionary.ofList (keys.map fun key => (key, value key))).get? key = some found ↔
      key ∈ keys ∧ value key = found := by
  have added : ∀ start : Dictionary κ α,
      ((keys.map fun key => (key, value key)).foldl
        (fun dictionary pair => dictionary.insert pair.1 pair.2) start).get? key = some found ↔
        key ∈ keys ∧ value key = found ∨ key ∉ keys ∧ start.get? key = some found := by
    induction keys with
    | nil => simp
    | cons first keys ih =>
        intro start
        rw [List.map_cons, List.foldl_cons, ih, Dictionary.get?_insert]
        by_cases later : key ∈ keys
        · simp [later]
        · by_cases same : key = first
          · simp [same, same ▸ later]
          · simp [later, same]
  have whole := added .empty
  have empty : (Dictionary.empty : Dictionary κ α).get? key = none := rfl
  rw [empty] at whole
  rw [ofList, whole]
  simp

namespace WorkingCopyStore

/-- A directory that holds nothing but files of shelves with accepted names, in reach of
the system. -/
structure OnlyShelfFiles (tree : FileTree) (directory : Path) (place : Location) : Prop where
  leads : tree.Leads directory place
  files : ∀ fileName entry, tree.get? (fileName :: place) = some entry → entry.isFile = true
  named : ∀ fileName, tree.get? (fileName :: place) ≠ none → ∃ name,
    Arguments.checkShelfName name = .ok name ∧
    (Utf8.decodeEscaped fileName = name ++ Shelf.patchSuffix ∨
      Utf8.decodeEscaped fileName = name ++ Shelf.logSuffix ∧
        tree.get? (patchAt place name) ≠ none)
  reachable : ∀ name, tree.get? (patchAt place name) ≠ none →
    (directory.child (name ++ Shelf.patchSuffix)).Fits

/-- The text of the file at a location. -/
def textAt (tree : FileTree) (location : Location) : Option Text :=
  match tree.get? location with
  | some (.file content _) => some (Utf8.decodeEscaped content)
  | some .directory => none
  | some (.link _) => none
  | none => none

/-- The names of the patch files in a directory. -/
def namesIn (tree : FileTree) (place : Location) : List Text :=
  (keysIn tree place).map Shelf.nameOf

/-- The shelves whose files are in a directory. -/
def savedIn (tree : FileTree) (place : Location) : SavedShelves :=
  .ofList ((namesIn tree place).map fun name =>
    (name, ⟨(textAt tree (patchAt place name)).getD [], textAt tree (logAt place name)⟩))

section Saved

variable {tree : FileTree} {directory : Path} {place : Location} {name : Text}

/-- A file stands where something stands, and its text is read. -/
theorem exists_textAt (only : OnlyShelfFiles tree directory place) {fileName : FileName}
    (stands : tree.get? (fileName :: place) ≠ none) :
    ∃ text, textAt tree (fileName :: place) = some text ∧
      HoldsText tree (fileName :: place) text := by
  obtain ⟨entry, found⟩ := Option.ne_none_iff_exists'.1 stands
  have file := only.files fileName entry found
  cases entry with
  | directory => cases file
  | link target => cases file
  | file content modified =>
      refine ⟨Utf8.decodeEscaped content, ?_, modified, ?_⟩
      · rw [textAt, found]
      · rw [found, Utf8.encode_decodeEscaped]

theorem mem_namesIn_iff (only : OnlyShelfFiles tree directory place) (sound : tree.Sound) :
    name ∈ namesIn tree place ↔
      ShelfName directory name ∧ tree.get? (patchAt place name) ≠ none := by
  simp only [namesIn, keysIn, List.mem_map, List.mem_filter, FileTree.mem_names_iff]
  constructor
  · rintro ⟨key, ⟨⟨fileName, stands, rfl⟩, ends⟩, rfl⟩
    obtain ⟨name, accepted, patch | log⟩ := only.named fileName stands
    · have bytes : fileName = Utf8.encode (name ++ Shelf.patchSuffix) := by
        rw [← patch, Utf8.encode_decodeEscaped]
      have known : Shelf.nameOf (Utf8.decodeEscaped fileName) = name := by
        rw [patch]
        exact Shelf.nameOf_keyOf name
      have there : tree.get? (patchAt place name) ≠ none := by
        rw [bytes] at stands
        exact stands
      rw [known]
      refine ⟨⟨⟨accepted, readable_of_decode isSuffix_patch (by rw [← bytes, patch]), ?_⟩,
        only.reachable name there⟩, there⟩
      rw [← bytes]
      exact (sound.named fileName place stands).short
    · rw [log.1, endsWith_patch_log] at ends
      cases ends
  · rintro ⟨shelfName, stands⟩
    refine ⟨name ++ Shelf.patchSuffix, ⟨⟨Utf8.encode (name ++ Shelf.patchSuffix), stands,
      shelfName.decode isSuffix_patch⟩, ?_⟩, Shelf.nameOf_keyOf name⟩
    exact List.isSuffixOf_iff_suffix.2 ⟨name, rfl⟩

theorem get?_savedIn (tree : FileTree) (place : Location) (name : Text) (shelf : SavedShelf) :
    (savedIn tree place).get? name = some shelf ↔ name ∈ namesIn tree place ∧
      (⟨(textAt tree (patchAt place name)).getD [], textAt tree (logAt place name)⟩ :
        SavedShelf) = shelf :=
  Dictionary.get?_ofList_map _ _ name shelf

/-- The files of a name hold the texts that are read from them. -/
theorem holdsShelf_of_mem (only : OnlyShelfFiles tree directory place) (sound : tree.Sound)
    (member : name ∈ namesIn tree place) :
    HoldsShelf tree directory place name
      ⟨(textAt tree (patchAt place name)).getD [], textAt tree (logAt place name)⟩ := by
  obtain ⟨shelfName, patchStands⟩ := (mem_namesIn_iff only sound).1 member
  refine ⟨shelfName, ?_, fun message read => ?_, fun unread => ?_⟩
  · obtain ⟨text, read, holds⟩ := exists_textAt only patchStands
    have same : textAt tree (patchAt place name) = some text := read
    rw [same]
    exact holds
  · have stands : tree.get? (logAt place name) ≠ none := by
      intro absent
      have read : textAt tree (logAt place name) = some message := read
      rw [textAt, absent] at read
      cases read
    obtain ⟨text, same, holds⟩ := exists_textAt only stands
    obtain rfl := Option.some.inj (same.symm.trans read)
    exact holds
  · refine Decidable.byContradiction fun stands => ?_
    obtain ⟨text, read, -⟩ := exists_textAt only stands
    have none : textAt tree (logAt place name) = none := unread
    rw [logAt, read] at none
    cases none

/-- The directory holds the shelves whose files are in it. -/
theorem holdsShelves_savedIn (only : OnlyShelfFiles tree directory place) (sound : tree.Sound) :
    HoldsShelves tree directory place (savedIn tree place) := by
  have patchOf {fileName : FileName} (stands : tree.get? (fileName :: place) ≠ none)
      {name : Text} (accepted : Arguments.checkShelfName name = .ok name)
      (read : Utf8.decodeEscaped fileName = name ++ Shelf.patchSuffix) :
      fileName :: place = patchAt place name ∧ (savedIn tree place).get? name ≠ none := by
    have bytes : fileName = Utf8.encode (name ++ Shelf.patchSuffix) := by
      rw [← read, Utf8.encode_decodeEscaped]
    subst bytes
    have shelfName : ShelfName directory name :=
      ⟨⟨accepted, readable_of_decode isSuffix_patch read, (sound.named _ place stands).short⟩,
        only.reachable name stands⟩
    have member := (mem_namesIn_iff only sound).2 ⟨shelfName, stands⟩
    exact ⟨rfl, Option.ne_none_iff_exists'.2 ⟨_, (get?_savedIn tree place name _).2 ⟨member, rfl⟩⟩⟩
  refine .of_each only.leads ?_ ?_
  · intro name shelf found
    obtain ⟨member, rfl⟩ := (get?_savedIn tree place name shelf).1 found
    exact holdsShelf_of_mem only sound member
  · intro fileName stands
    obtain ⟨name, accepted, patch | ⟨log, beside⟩⟩ := only.named fileName stands
    · obtain ⟨at_, known⟩ := patchOf stands accepted patch
      exact ⟨name, known, .inl at_⟩
    · -- The name is read back from the message file, so the patch file bears it as well.
      have bytes : fileName = Utf8.encode (name ++ Shelf.logSuffix) := by
        rw [← log, Utf8.encode_decodeEscaped]
      have readable := readable_of_decode isSuffix_log (by rw [← bytes, log])
      have read := decode_of_readable isSuffix_patch readable
      exact ⟨name, (patchOf beside accepted read).2, .inr (by rw [bytes]; rfl)⟩

end Saved

/-- Whatever a directory of shelves holds at first, a map stands behind it. -/
theorem exists_represents {tree : FileTree} {directory : Path} (sound : tree.Sound)
    (starts : tree.Vacant directory ∨ ∃ place, OnlyShelfFiles tree directory place) :
    ∃ shelves, Represents tree directory shelves := by
  rcases starts with vacant | ⟨place, only⟩
  · exact ⟨.empty, .vacant vacant fun _ => rfl⟩
  · exact ⟨savedIn tree place, .held place (holdsShelves_savedIn only sound)⟩

end WorkingCopyStore

end PatchShelf
