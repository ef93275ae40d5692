/-
Module: PatchShelf.Proofs.Store.ShelfNames
Purpose: Names of shelves that can be kept, and the paths of their files.
Main exports:
  WorkingCopyStore.KeptName, WorkingCopyStore.KeptName.shelfFile,
  WorkingCopyStore.KeptName.eq_of_encode, WorkingCopyStore.ShelfName,
  WorkingCopyStore.ShelfName.patchPath, WorkingCopyStore.ShelfName.logPath
-/
import PatchShelf.Proofs.Store.ShelfFiles

/-!
A name that is accepted for a shelf names two files of the directory of shelves, if the
system can take the longer one of them, the patch file.  Different names that can be
read back from their bytes name different files.
-/

namespace PatchShelf

namespace Path

/-- The text of a child path is that of the path, with something between at most, and
the component. -/
theorem exists_toText_child (path : Path) :
    ∃ lead, ∀ part : Text, (path.child part).toText = lead ++ part := by
  by_cases below : path.parts = []
  · refine ⟨path.anchor.toText, fun part => ?_⟩
    have filled : path.parts ++ [part] ≠ [] := by simp
    rw [toText, child_anchor, child_parts, if_neg fun bare => filled bare.2, below]
    rfl
  · refine ⟨path.toText ++ [Glyph.char '/'], fun part => ?_⟩
    rw [toText_child part below, List.append_assoc, List.singleton_append]

/-- A child path with a component that is no longer fits as well. -/
theorem Fits.of_shorter {path : Path} {part other : Text} (fits : (path.child part).Fits)
    (noNull : other.holds '\x00' = false)
    (shorter : (Utf8.encode other).length ≤ (Utf8.encode part).length) :
    (path.child other).Fits := by
  obtain ⟨lead, shown⟩ := path.exists_toText_child
  have clean := fits.noNull
  have short := fits.short
  rw [shown, Text.holds, List.any_append, Bool.or_eq_false_iff] at clean
  rw [shown, Utf8.encode_append, List.length_append] at short
  refine ⟨?_, ?_⟩
  · rw [shown, Text.holds, List.any_append, clean.1]
    exact noNull
  · rw [shown, Utf8.encode_append, List.length_append]
    omega

end Path

namespace WorkingCopyStore

open FileTree (EntryPath IsEntryName)

/-- A suffix is read apart from the name that it is put to. -/
theorem decodeEscaped_suffix (name : Text) {suffix : Text} (ends : IsSuffix suffix) :
    Utf8.decodeEscaped (Utf8.encode (name ++ suffix)) =
      Utf8.decodeEscaped (Utf8.encode name) ++ suffix := by
  obtain ⟨byte, rest, spelled, ascii⟩ := ends.ascii
  have back := Utf8.decodeEscaped_encode ends.valid
  rw [spelled] at back
  rw [Utf8.encode_append, spelled, Utf8.decodeEscaped_append_ascii _ ascii, back]

theorem decode_of_readable {name suffix : Text} (ends : IsSuffix suffix)
    (readable : Utf8.decodeEscaped (Utf8.encode name) = name) :
    Utf8.decodeEscaped (Utf8.encode (name ++ suffix)) = name ++ suffix := by
  rw [decodeEscaped_suffix name ends, readable]

/-- A name is read back from its bytes if the name of one of its files is. -/
theorem readable_of_decode {name suffix : Text} (ends : IsSuffix suffix)
    (back : Utf8.decodeEscaped (Utf8.encode (name ++ suffix)) = name ++ suffix) :
    Utf8.decodeEscaped (Utf8.encode name) = name := by
  rw [decodeEscaped_suffix name ends] at back
  exact List.append_cancel_right back

/-- Text that is valid is read back from its bytes. -/
theorem readable_of_toUtf8 {name : Text} (valid : Arguments.toUtf8 (.text name) = .ok name) :
    Utf8.decodeEscaped (Utf8.encode name) = name := by
  rw [Arguments.toUtf8] at valid
  split at valid
  · cases valid
  · rename_i clean
    exact Utf8.decodeEscaped_encode (by simpa using clean)

/-- A name under which a shelf can be kept: it is accepted, can be read back from its
bytes, and no file name of the shelf is too long. -/
structure KeptName (name : Text) : Prop where
  accepted : Arguments.checkShelfName name = .ok name
  readable : Utf8.decodeEscaped (Utf8.encode name) = name
  short : (Utf8.encode (name ++ Shelf.patchSuffix)).length ≤ FileTree.longestName

/-- Such a name in a directory where the system takes the path of its patch file. -/
structure ShelfName (directory : Path) (name : Text) : Prop extends KeptName name where
  fits : (directory.child (name ++ Shelf.patchSuffix)).Fits

/-- What an accepted name is like. -/
theorem of_checkShelfName {name : Text} (accepted : Arguments.checkShelfName name = .ok name) :
    name.isBlank = false ∧ name.holds '/' = false ∧ name.holds '\x00' = false := by
  rw [Arguments.checkShelfName] at accepted
  split at accepted
  · cases accepted
  · rename_i filled
    split at accepted
    · rename_i fits
      simp only [Arguments.fitsFileName, Arguments.forbiddenInNames, Bool.not_eq_true',
        Bool.or_eq_false_iff, List.any_cons] at fits
      exact ⟨by simpa using filled, fits.2.1, fits.2.2.2.1⟩
    · cases accepted

/-- An accepted name is one component of a path. -/
theorem whole_of_checkShelfName {name : Text}
    (accepted : Arguments.checkShelfName name = .ok name) : Glyph.char '/' ∉ name := by
  rw [← Text.holds_iff, (of_checkShelfName accepted).2.1]
  exact Bool.false_ne_true

/-- Reading a shelf file name as a path in the directory gives the path of the entry. -/
theorem join_of_accepted {name suffix : Text}
    (accepted : Arguments.checkShelfName name = .ok name) (directory : Path)
    (ends : IsSuffix suffix) :
    directory / Path.ofText (name ++ suffix) = directory.child (name ++ suffix) := by
  rw [Path.ofText_of_isPart (ends.isPart (whole_of_checkShelfName accepted))]
  rfl

/-- The files of an accepted name are entries of the directory of shelves. -/
theorem shelfFile_of_accepted {name suffix : Text}
    (accepted : Arguments.checkShelfName name = .ok name) (directory : Path)
    (ends : IsSuffix suffix) :
    shelfFile directory name suffix = .ok (directory.child (name ++ suffix)) := by
  obtain ⟨filled, -, noNull⟩ := of_checkShelfName accepted
  rw [shelfFile, join_of_accepted accepted directory ends, filled, noNull, Path.parent_child]
  simp

namespace KeptName

variable {name : Text}

theorem filled (kept : KeptName name) : name.isBlank = false :=
  (of_checkShelfName kept.accepted).1

theorem noNull (kept : KeptName name) : name.holds '\x00' = false :=
  (of_checkShelfName kept.accepted).2.2

theorem whole (kept : KeptName name) : Glyph.char '/' ∉ name :=
  whole_of_checkShelfName kept.accepted

theorem join (kept : KeptName name) (directory : Path) {suffix : Text} (ends : IsSuffix suffix) :
    directory / Path.ofText (name ++ suffix) = directory.child (name ++ suffix) :=
  join_of_accepted kept.accepted directory ends

theorem shelfFile (kept : KeptName name) (directory : Path) {suffix : Text}
    (ends : IsSuffix suffix) :
    shelfFile directory name suffix = .ok (directory.child (name ++ suffix)) :=
  shelfFile_of_accepted kept.accepted directory ends

/-- Names that can be read back are told apart by the bytes of their patch files. -/
theorem eq_of_encode (kept : KeptName name) {other : Text} (second : KeptName other)
    {suffix : Text} (same : Utf8.encode (name ++ suffix) = Utf8.encode (other ++ suffix)) :
    name = other := by
  rw [Utf8.encode_append, Utf8.encode_append] at same
  rw [← kept.readable, ← second.readable, List.append_cancel_right same]

/-- The name of a shelf file is read back from its bytes. -/
theorem decode (kept : KeptName name) {suffix : Text} (ends : IsSuffix suffix) :
    Utf8.decodeEscaped (Utf8.encode (name ++ suffix)) = name ++ suffix :=
  decode_of_readable ends kept.readable

end KeptName

/-- If the system takes the path of the patch file, it takes that of the log file. -/
theorem entryPath_log {directory : Path} {stem : Text} (whole : Glyph.char '/' ∉ stem)
    (noNull : stem.holds '\x00' = false)
    (patch : EntryPath directory (stem ++ Shelf.patchSuffix)) :
    EntryPath directory (stem ++ Shelf.logSuffix) := by
  have shorter : (Utf8.encode (stem ++ Shelf.logSuffix)).length ≤
      (Utf8.encode (stem ++ Shelf.patchSuffix)).length := by
    rw [Utf8.encode_append, Utf8.encode_append, List.length_append, List.length_append]
    exact Nat.add_le_add_left (by decide) _
  have clean : (stem ++ Shelf.logSuffix).holds '\x00' = false := by
    rw [Text.holds] at noNull
    rw [Text.holds, List.any_append, noNull]
    decide
  exact ⟨patch.absolute, isSuffix_log.isEntryName whole, Nat.le_trans shorter patch.short,
    patch.fits.of_shorter clean shorter⟩

namespace ShelfName

variable {directory : Path} {name : Text}

theorem patchPath (shelf : ShelfName directory name) (absolute : directory.isAbsolute = true) :
    EntryPath directory (name ++ Shelf.patchSuffix) :=
  ⟨absolute, isSuffix_patch.isEntryName shelf.whole, shelf.short, shelf.fits⟩

theorem logPath (shelf : ShelfName directory name) (absolute : directory.isAbsolute = true) :
    EntryPath directory (name ++ Shelf.logSuffix) :=
  entryPath_log shelf.whole shelf.noNull (shelf.patchPath absolute)

end ShelfName

end WorkingCopyStore

end PatchShelf
