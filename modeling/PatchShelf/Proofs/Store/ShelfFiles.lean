/-
Module: PatchShelf.Proofs.Store.ShelfFiles
Purpose: The paths of the files of a shelf, and what writing and removing them leaves.
Main exports:
  FileTree.isEntryName_of_isPart, WorkingCopyStore.IsStem, WorkingCopyStore.exists_isStem,
  WorkingCopyStore.FreeOfLinks, WorkingCopyStore.run_removeFiles_of_unlinked,
  WorkingCopyStore.exists_run_unlinkIfPresent, WorkingCopyStore.FilesWritten,
  WorkingCopyStore.exists_filesWritten
-/
import PatchShelf.Proofs.Machine.Files
import PatchShelf.Proofs.Path
import PatchShelf.Proofs.Store.Client

/-!
The files of a shelf are entries of the directory of shelves, whatever the name of
the shelf is.  Once they are written, their paths read what was written, as long as
no link stands in the directory.
-/

namespace PatchShelf

namespace FileTree

/-- A component of a path that does not lead upwards names an entry. -/
theorem isEntryName_of_isPart {part : Text} (isPart : Path.IsPart part)
    (descends : part ≠ Path.up) : IsEntryName part := by
  refine ⟨isPart.whole, ?_, ?_⟩
  · rw [staysHere, Bool.or_eq_false_iff, List.isEmpty_eq_false_iff, beq_eq_false_iff_ne]
    refine ⟨Utf8.encode_ne_nil isPart.nonempty, fun here => isPart.moves ?_⟩
    exact (Utf8.eq_decodeEscaped_of_encode here (by decide +kernel)).trans (by decide +kernel)
  · intro up
    exact descends
      ((Utf8.eq_decodeEscaped_of_encode up (by decide +kernel)).trans (by decide +kernel))

end FileTree

namespace WorkingCopyStore

open FileTree (IsEntryName)

/-! ### Paths -/

/-- An end of file names that makes a component of a path out of anything without a
slash. -/
structure IsSuffix (suffix : Text) : Prop where
  whole : Glyph.char '/' ∉ suffix
  long : 2 < suffix.length
  valid : suffix.hasRaw = false
  ascii : ∃ byte rest, Utf8.encode suffix = byte :: rest ∧ byte.toNat < 0x80

theorem isSuffix_patch : IsSuffix Shelf.patchSuffix :=
  ⟨by decide, by decide, by decide, _, _, rfl, by decide⟩

theorem isSuffix_log : IsSuffix Shelf.logSuffix :=
  ⟨by decide, by decide, by decide, _, _, rfl, by decide⟩

namespace IsSuffix

variable {stem suffix : Text}

/-- With its suffix, a name is longer than `.` and `..`. -/
theorem ne_of_short (ends : IsSuffix suffix) (stem : Text) {other : Text}
    (short : other.length ≤ 2) : stem ++ suffix ≠ other := by
  rintro rfl
  have long := ends.long
  rw [List.length_append] at short
  omega

/-- Without a slash, a name with such a suffix is a part of a path. -/
theorem isPart (ends : IsSuffix suffix) (whole : Glyph.char '/' ∉ stem) :
    Path.IsPart (stem ++ suffix) where
  nonempty := ends.ne_of_short stem (by decide)
  moves := ends.ne_of_short stem (by decide)
  whole := by
    rw [List.mem_append, not_or]
    exact ⟨whole, ends.whole⟩

/-- Without a slash, a name with such a suffix can name an entry. -/
theorem isEntryName (ends : IsSuffix suffix) (whole : Glyph.char '/' ∉ stem) :
    IsEntryName (stem ++ suffix) :=
  FileTree.isEntryName_of_isPart (ends.isPart whole) (ends.ne_of_short stem (by decide))

/-- With such a name at its end, a path is still read back from its text. -/
theorem isPart_of_mem_child (ends : IsSuffix suffix) (whole : Glyph.char '/' ∉ stem) {path : Path}
    (above : ∀ part ∈ path.parts, Path.IsPart part) :
    ∀ part ∈ (path.child (stem ++ suffix)).parts, Path.IsPart part := by
  intro part member
  rcases List.mem_append.1 member with higher | last
  · exact above part higher
  · obtain rfl := List.mem_singleton.1 last
    exact ends.isPart whole

end IsSuffix

/-- Reading the name of a shelf as a path leads to some directory, and the ends of its
file names are put to the last component. -/
theorem exists_join_suffix (directory : Path) (name : Text) :
    ∃ above stem, (Text.splitOn '/' name).getLast? = some stem ∧ ∀ suffix, IsSuffix suffix →
        directory / Path.ofText (name ++ suffix) = Path.child above (stem ++ suffix) := by
  have bare : Glyph.char '/' ∉ ([] : Text) := List.not_mem_nil
  obtain ⟨fields, stem, cut, -⟩ := Text.exists_splitOn_append name bare
  have last : (Text.splitOn '/' name).getLast? = some stem := by simp [cut]
  have whole := Text.notMem_of_mem_splitOn (List.mem_of_getLast? last)
  let kept := fields.filter fun part => !(part.isEmpty || part == Path.here)
  have read (suffix : Text) (ends : IsSuffix suffix) :
      Path.ofText (name ++ suffix) = ⟨Path.anchorOf name, kept ++ [stem ++ suffix]⟩ := by
    obtain ⟨others, again, same, appended⟩ := Text.exists_splitOn_append name ends.whole
    obtain ⟨rfl, ⟨⟩⟩ := List.append_inj' (cut.symm.trans same) rfl
    have headed : suffix.head? ≠ some (Glyph.char '/') := by
      intro first
      exact ends.whole (List.mem_of_head? first)
    rw [Path.ofText, Path.anchorOf_append name headed, appended, List.filter_append,
      Path.filter_parts (List.forall_mem_singleton.2 (ends.isPart whole))]
  by_cases absolute : Path.anchorOf name = .relative
  · refine ⟨⟨directory.anchor, directory.parts ++ kept⟩, stem, last, fun suffix ends => ?_⟩
    simp [read suffix ends, HDiv.hDiv, Div.div, Path.join, Path.isAbsolute, absolute, Path.child]
  · refine ⟨⟨Path.anchorOf name, kept⟩, stem, last, fun suffix ends => ?_⟩
    simp [read suffix ends, HDiv.hDiv, Div.div, Path.join, Path.isAbsolute, absolute, Path.child]

/-- The name of a shelf without what leads to the directory of shelves: the names of both
of its files begin with it. -/
structure IsStem (directory : Path) (name stem : Text) : Prop where
  last : (Text.splitOn '/' name).getLast? = some stem
  noNull : stem.holds '\x00' = false
  shelfFile : ∀ suffix, IsSuffix suffix →
    shelfFile directory name suffix = .ok (directory.child (stem ++ suffix))

/-- The stem of a shelf has no slash. -/
theorem IsStem.whole {directory : Path} {name stem : Text} (isStem : IsStem directory name stem) :
    Glyph.char '/' ∉ stem :=
  Text.notMem_of_mem_splitOn (List.mem_of_getLast? isStem.last)

/-- A name without a slash leads nowhere. -/
theorem IsStem.eq_of_whole {directory : Path} {name stem : Text}
    (isStem : IsStem directory name stem) (whole : Glyph.char '/' ∉ name) : stem = name := by
  have last := isStem.last
  rw [Text.splitOn_of_notMem whole] at last
  exact (Option.some.inj last).symm

/-- The files of a shelf bring no NUL into their paths. -/
theorem IsStem.noNull_child {directory : Path} {name stem suffix : Text}
    (isStem : IsStem directory name stem) (clean : directory.toText.holds '\x00' = false)
    (own : suffix.holds '\x00' = false) :
    (directory.child (stem ++ suffix)).toText.holds '\x00' = false := by
  refine Path.noNull_child clean ?_
  have first := isStem.noNull
  rw [Text.holds] at first own ⊢
  rw [List.any_append, first, own]
  rfl

/-- If one file of a shelf has a path, both have, and they differ in their ends only. -/
theorem exists_isStem {directory path : Path} {name suffix : Text} (ends : IsSuffix suffix)
    (given : shelfFile directory name suffix = .ok path) :
    ∃ stem, IsStem directory name stem ∧ path = directory.child (stem ++ suffix) := by
  obtain ⟨above, stem, last, joined⟩ := exists_join_suffix directory name
  rw [shelfFile] at given
  split at given
  · cases given
  · rename_i accepted
    obtain rfl := Except.ok.inj given
    rw [Bool.not_eq_true, Bool.or_eq_false_iff, Bool.or_eq_false_iff, bne_eq_false_iff_eq,
      joined suffix ends, Path.parent_child] at accepted
    obtain ⟨⟨filled, clean⟩, rfl⟩ := accepted
    have noNull : stem.holds '\x00' = false := by
      rw [← Bool.not_eq_true, Text.holds_iff] at clean ⊢
      exact fun member =>
        clean (Text.mem_of_mem_splitOn (List.mem_of_getLast? last) _ member)
    refine ⟨stem, ⟨last, noNull, fun other second => ?_⟩, joined suffix ends⟩
    rw [shelfFile, joined other second, Path.parent_child, filled, clean]
    simp

/-- The path of a shelf file is that of an entry in the directory of shelves. -/
theorem exists_of_shelfFile {directory path : Path} {name suffix : Text}
    (ends : IsSuffix suffix) (given : shelfFile directory name suffix = .ok path) :
    ∃ stem, IsEntryName (stem ++ suffix) ∧ path = directory.child (stem ++ suffix) := by
  obtain ⟨stem, isStem, shown⟩ := exists_isStem ends given
  exact ⟨stem, ends.isEntryName isStem.whole, shown⟩

/-! ### Writing the files -/

/-- No link stands in the directory that the path leads to. -/
def FreeOfLinks (tree : FileTree) (directory : Path) : Prop :=
  ∀ place, tree.Leads directory place →
    ∀ name target, tree.get? (name :: place) ≠ some (.link target)

/-- A tree without links is free of them at every directory. -/
theorem freeOfLinks_of_entries {tree : FileTree}
    (linkless : ∀ pair ∈ tree.entries.pairs, pair.2.isLink = false) (directory : Path) :
    FreeOfLinks tree directory :=
  fun _ _ _ target => FileTree.noLink_of_entries linkless _ target

/-- The tree with the files of a shelf in a directory. -/
def putFiles (tree : FileTree) (place : Location) (patchName logName : FileName)
    (moment : FileTime) (patch : Bytes) : (message : Option Bytes) → FileTree
  | none => tree.put (patchName :: place) (.file patch moment)
  | some content =>
    (tree.put (patchName :: place) (.file patch moment)).put (logName :: place)
      (.file content moment)

/-- Only the patch and, with a message, the log stand anew. -/
theorem get?_putFiles (tree : FileTree) (place location : Location)
    (patchName logName : FileName) (moment : FileTime) (patch : Bytes) (message : Option Bytes) :
    (putFiles tree place patchName logName moment patch message).get? location =
      if location = logName :: place ∧ message.isSome = true then
        message.map fun content => .file content moment
      else if location = patchName :: place then some (.file patch moment)
      else tree.get? location := by
  cases message with
  | none => simp [putFiles]
  | some content => simp [putFiles]

section Writing

variable {machine : Machine} {directory : Path} {place : Location}

/-- A file below a directory is put where the directory leads. -/
theorem run_writeFile_child (machine : Machine) {part : Text} {content : Bytes}
    (absolute : directory.isAbsolute = true) (name : IsEntryName part)
    (leads : machine.tree.Leads directory place)
    (noLink : ∀ target, machine.tree.get? (Utf8.encode part :: place) ≠ some (.link target))
    (succeeded : ((Machine.writeFile (directory.child part) content).run machine).result = .ok ()) :
    (Machine.writeFile (directory.child part) content).run machine =
        ⟨.ok (), machine.withTree
          (machine.tree.put (Utf8.encode part :: place) (.file content machine.clock)), []⟩ ∧
      machine.tree.TakesFile directory part place := by
  obtain ⟨tree, written, ran⟩ := Machine.exists_of_run_writeFile succeeded
  obtain ⟨rfl, takes⟩ := FileTree.write_child absolute name leads noLink written
  exact ⟨ran, takes⟩

/-- A tree in which the files of a shelf can be written. -/
structure TakesShelf (tree : FileTree) (directory : Path) (place : Location)
    (patchPart logPart : Text) (message : Option Bytes) : Prop where
  patch : tree.TakesFile directory patchPart place
  log : message.isSome = true → tree.TakesFile directory logPart place

/-- Writing the patch and the log message of a shelf, without making the directory. -/
def writeBoth (patchPath logPath : Path) (patch : Bytes) (message : Option Bytes) :
    Machine.Operation Unit := do
  Machine.writeFile patchPath patch
  match message with
  | some content => Machine.writeFile logPath content
  | none => pure ()

/-- The files are written once their directory is there. -/
theorem writeFiles_eq (directory patchPath logPath : Path) (patch : Bytes)
    (message : Option Bytes) :
    writeFiles directory patchPath logPath patch message =
      (Machine.makeDirectories directory.anchor directory.parts.reverse >>= fun _ =>
        writeBoth patchPath logPath patch message) := by
  cases message with
  | none => rfl
  | some content => rfl

/-- Writing the files of a shelf leaves no trail. -/
theorem silent_writeFiles (directory patchPath logPath : Path) (patch : Bytes)
    (message : Option Bytes) :
    Effect.Silent (writeFiles directory patchPath logPath patch message) := by
  rw [writeFiles_eq]
  refine .bind (Machine.silent_makeDirectories _ _) fun _ => ?_
  refine .bind (Machine.silent_writeFile _ _) fun _ => ?_
  cases message with
  | none => exact .ofReads (.pure ())
  | some content => exact Machine.silent_writeFile _ _

/-- Writing the files of a shelf touches nothing but the tree. -/
theorem touchesTreeOnly_writeFiles (directory patchPath logPath : Path) (patch : Bytes)
    (message : Option Bytes) :
    Machine.TouchesTreeOnly (writeFiles directory patchPath logPath patch message) := by
  rw [writeFiles_eq]
  refine .bind (.makeDirectories _ _) fun _ => ?_
  refine .bind (.writeFile _ _) fun _ => ?_
  cases message with
  | none => exact .ofReads (.pure ())
  | some content => exact .writeFile _ _

/-- Both files are put side by side, if writing succeeds. -/
theorem run_writeBoth {patchPart logPart : Text} {patch : Bytes} {message : Option Bytes}
    (absolute : directory.isAbsolute = true) (patchName : IsEntryName patchPart)
    (logName : IsEntryName logPart) (leads : machine.tree.Leads directory place)
    (noLink : ∀ name target, machine.tree.get? (name :: place) ≠ some (.link target))
    (succeeded : ((writeBoth (directory.child patchPart) (directory.child logPart) patch
      message).run machine).result = .ok ()) :
    (writeBoth (directory.child patchPart) (directory.child logPart) patch message).run machine =
        ⟨.ok (), machine.withTree (putFiles machine.tree place (Utf8.encode patchPart)
          (Utf8.encode logPart) machine.clock patch message), []⟩ ∧
      TakesShelf machine.tree directory place patchPart logPart message := by
  rw [writeBoth.eq_def] at succeeded ⊢
  obtain ⟨done, first, later, whole⟩ := Effect.exists_of_run_bind_ok succeeded
  obtain ⟨patched, takesPatch⟩ :=
    run_writeFile_child machine absolute patchName leads (noLink _) first
  rw [patched] at later whole
  cases message with
  | none => exact ⟨whole, takesPatch, nofun⟩
  | some content =>
      -- The directory is still there, and the new file is no link.
      have keeps := FileTree.keepsWays_put (.file patch machine.clock) takesPatch.noWay
      have linkless : ∀ target, (machine.tree.put (Utf8.encode patchPart :: place)
          (.file patch machine.clock)).get? (Utf8.encode logPart :: place) ≠
            some (.link target) := by
        intro target
        rw [FileTree.get?_put _ _ _ _ (List.cons_ne_nil _ _)]
        split
        · simp
        · exact noLink _ target
      have stands := leads.of_keepsWays keeps absolute
      obtain ⟨logged, takesLog⟩ :=
        run_writeFile_child (machine.withTree (machine.tree.put (Utf8.encode patchPart :: place)
          (.file patch machine.clock))) absolute logName stands linkless later
      rw [logged] at whole
      exact ⟨whole, takesPatch, fun _ =>
        ⟨takesLog.noWay.of_keepsWays keeps, takesLog.short, takesLog.fits⟩⟩

/-- Once the patch file is gone, all that is left is to unlink the log file. -/
theorem run_removeFiles_of_unlinked {patchPath logPath : Path} {name : Text} {rest : FileTree}
    (unlinked : machine.tree.unlink machine.directory patchPath = .ok rest)
    (logNamed : shelfFile directory name Shelf.logSuffix = .ok logPath) :
    (removeFiles directory patchPath name).run machine =
      (Machine.unlinkIfPresent logPath).run (machine.withTree rest) := by
  rw [removeFiles, Effect.run_bind, Machine.run_alter, unlinked]
  simp only
  rw [(Effect.Reads.ofChecked _).run_bind, Effect.run_ofChecked, logNamed]
  simp

/-- What is missing or a file is unlinked. -/
theorem exists_run_unlinkIfPresent {part : Text} (path : FileTree.EntryPath directory part)
    (leads : machine.tree.Leads directory place) (sound : machine.tree.Sound)
    (isFile : ∀ entry, machine.tree.get? (Utf8.encode part :: place) = some entry →
      ∃ content modified, entry = .file content modified) :
    ∃ new, (Machine.unlinkIfPresent (directory.child part)).run machine =
        ⟨.ok (), machine.withTree new, []⟩ ∧
      new.Sound ∧ FileTree.KeepsWays machine.tree new ∧
      ∀ location, new.get? location =
        if location = Utf8.encode part :: place then none else machine.tree.get? location := by
  rw [Machine.run_unlinkIfPresent]
  cases stands : machine.tree.get? (Utf8.encode part :: place) with
  | none =>
      rw [path.unlink_missing leads machine.directory stands]
      refine ⟨machine.tree, rfl, sound, .refl _, fun location => ?_⟩
      split
      · rename_i same
        rw [same, stands]
      · rfl
  | some entry =>
      obtain ⟨content, modified, rfl⟩ := isFile entry stands
      rw [path.unlink_file leads machine.directory stands]
      have noWay := FileTree.noWay_of_file stands
      exact ⟨_, rfl, sound.remove noWay, FileTree.keepsWays_remove noWay,
        fun location => FileTree.get?_remove _ _ location (List.cons_ne_nil _ _)⟩

/-- How the files of a shelf came to be written: the directory was there before or was
made for them, and it takes them. -/
structure FilesWritten (machine : Machine) (directory : Path) (patchPart logPart : Text)
    (message : Option Bytes) (base : FileTree) (place : Location) : Prop where
  grown : FileTree.Grown machine.tree base
  sound : base.Sound
  leads : base.Leads directory place
  origin : machine.tree.Leads directory place ∨ ∀ name, base.get? (name :: place) = none
  takes : TakesShelf base directory place patchPart logPart message

/-- No link can have come into a directory that was made just now. -/
theorem noLink_of_grown {old new : FileTree} (grown : FileTree.Grown old new)
    (free : FreeOfLinks old directory)
    (origin : old.Leads directory place ∨ ∀ name, new.get? (name :: place) = none) :
    ∀ name target, new.get? (name :: place) ≠ some (.link target) := by
  intro name target linked
  rcases origin with before | empty
  · rcases grown (name :: place) with same | ⟨-, made⟩
    · exact free place before name target (same.symm.trans linked)
    · rw [linked] at made
      cases made
  · rw [empty name] at linked
    cases linked

/-- Before both files are written, the directory for them is made. -/
theorem exists_writeBoth_of_writeFiles {patchPath logPath : Path} {patch : Bytes}
    {message : Option Bytes} {after : Machine} (sound : machine.tree.Sound)
    (absolute : directory.isAbsolute = true)
    (writes : (writeFiles directory patchPath logPath patch message).run machine =
      ⟨.ok (), after, []⟩) :
    ∃ base, base.Sound ∧ FileTree.KeepsWays machine.tree base ∧
      ((writeBoth patchPath logPath patch message).run (machine.withTree base)).result = .ok () ∧
      ((writeBoth patchPath logPath patch message).run (machine.withTree base)).world = after := by
  have anchored : directory.anchor ≠ .relative := by
    simpa [Path.isAbsolute] using absolute
  have made := Machine.DirectoriesMade.ofMakeDirectories anchored directory.parts.reverse sound
  rw [writeFiles_eq] at writes
  obtain ⟨done, -, later, whole⟩ :=
    Effect.exists_of_run_bind_ok (congrArg Outcome.result writes)
  refine ⟨_, made.sound, made.grown.keepsWays, ?_⟩
  rw [← made.others]
  exact ⟨later, (congrArg Outcome.world whole).symm.trans (congrArg Outcome.world writes)⟩

/-- The directory is made where it was missing, and both files are put there. -/
theorem exists_filesWritten {patchPart logPart : Text} {patch : Bytes}
    {message : Option Bytes} (absolute : directory.isAbsolute = true)
    (parts : ∀ part ∈ directory.parts, IsEntryName part) (patchName : IsEntryName patchPart)
    (logName : IsEntryName logPart) (sound : machine.tree.Sound)
    (free : FreeOfLinks machine.tree directory)
    (succeeded : ((writeFiles directory (directory.child patchPart) (directory.child logPart)
      patch message).run machine).result = .ok ()) :
    ∃ base place, FilesWritten machine directory patchPart logPart message base place ∧
      (writeFiles directory (directory.child patchPart) (directory.child logPart) patch
        message).run machine =
        ⟨.ok (), machine.withTree (putFiles base place (Utf8.encode patchPart)
          (Utf8.encode logPart) machine.clock patch message), []⟩ := by
  have anchored : directory.anchor ≠ .relative := by
    simpa [Path.isAbsolute] using absolute
  have made := Machine.DirectoriesMade.ofMakeDirectories anchored directory.parts.reverse sound
  rw [List.reverse_reverse] at made
  rw [writeFiles_eq] at succeeded ⊢
  obtain ⟨done, first, later, whole⟩ := Effect.exists_of_run_bind_ok succeeded
  obtain ⟨place, leads, origin⟩ := made.leads parts first
  obtain ⟨both, takes⟩ := run_writeBoth absolute patchName logName leads
    (noLink_of_grown made.grown free origin) later
  refine ⟨_, place, ⟨made.grown, made.sound, leads, origin, takes⟩, ?_⟩
  rw [whole, both, Machine.silent_makeDirectories, made.others]
  rfl

end Writing

/-! ### After the files are written -/

/-- The names of the files of shelves differ in their last byte. -/
theorem encode_patch_ne_encode_log (one two : Text) :
    Utf8.encode (one ++ Shelf.patchSuffix) ≠ Utf8.encode (two ++ Shelf.logSuffix) := by
  intro same
  have last := congrArg List.getLast? same
  have patchEnd : (Utf8.encode Shelf.patchSuffix).getLast? = some 0x68 := by decide
  have logEnd : (Utf8.encode Shelf.logSuffix).getLast? = some 0x67 := by decide
  rw [Utf8.encode_append, Utf8.encode_append, List.getLast?_append, List.getLast?_append,
    patchEnd, logEnd] at last
  cases last

/-- A directory, by its path, holds a file with a content that the path of the file
reaches. -/
structure HoldsFile (tree : FileTree) (directory : Path) (part : Text) (content : Bytes) :
    Prop where
  absolute : directory.isAbsolute = true
  name : IsEntryName part
  short : (Utf8.encode part).length ≤ FileTree.longestName
  fits : (directory.child part).Fits
  stands : ∃ place modified, tree.Leads directory place ∧
    tree.get? (Utf8.encode part :: place) = some (.file content modified)

/-- A file that is held is read from everywhere. -/
theorem HoldsFile.read {tree : FileTree} {directory : Path} {part : Text} {content : Bytes}
    (holds : HoldsFile tree directory part content) (base : Location) :
    tree.read base (directory.child part) = .ok content := by
  obtain ⟨place, modified, leads, stands⟩ := holds.stands
  exact FileTree.read_child base holds.absolute holds.name holds.fits holds.short leads stands

section Written

variable {machine : Machine} {directory : Path} {place : Location} {base : FileTree}
  {patchPart logPart : Text} {message : Option Bytes}

/-- The new files stand in nobody's way. -/
theorem TakesShelf.keepsWays (takes : TakesShelf base directory place patchPart logPart message)
    (moment : FileTime) (patch : Bytes) :
    FileTree.KeepsWays base (putFiles base place (Utf8.encode patchPart) (Utf8.encode logPart)
      moment patch message) := by
  cases message with
  | none => exact FileTree.keepsWays_put _ takes.patch.noWay
  | some content =>
      intro location entry stands way
      have other : ∀ part, base.NoWay (Utf8.encode part :: place) →
          location ≠ Utf8.encode part :: place := by
        rintro part noWay rfl
        simp [noWay entry stands] at way
      rw [get?_putFiles, if_neg fun here => other logPart (takes.log rfl).noWay here.1,
        if_neg (other patchPart takes.patch.noWay), stands]

/-- The new files of a shelf leave a sound tree. -/
theorem TakesShelf.sound (takes : TakesShelf base directory place patchPart logPart message)
    (sound : base.Sound) (absolute : directory.isAbsolute = true)
    (patchName : IsEntryName patchPart) (logName : IsEntryName logPart)
    (leads : base.Leads directory place) (moment : FileTime) (patch : Bytes) :
    (putFiles base place (Utf8.encode patchPart) (Utf8.encode logPart) moment patch
      message).Sound := by
  have above : base.get? place = some .directory :=
    FileTree.holds_of_locate_absolute sound.grounded absolute leads
  have first := sound.put (.file patch moment) (patchName.isEntry takes.patch.short)
    takes.patch.noWay above
  cases message with
  | none => exact first
  | some content =>
      have takesLog := takes.log rfl
      have keeps := FileTree.keepsWays_put (.file patch moment) takes.patch.noWay
      refine first.put _ (logName.isEntry takesLog.short) ?_ (keeps _ _ above rfl)
      intro entry stands
      rw [FileTree.get?_put _ _ _ _ (List.cons_ne_nil _ _)] at stands
      split at stands
      · cases stands
        rfl
      · exact takesLog.noWay entry stands

/-- The patch is there, unless the log has its name. -/
theorem holdsFile_patch (absolute : directory.isAbsolute = true) (name : IsEntryName patchPart)
    (leads : base.Leads directory place)
    (takes : TakesShelf base directory place patchPart logPart message) (moment : FileTime)
    (patch : Bytes) (apart : Utf8.encode patchPart ≠ Utf8.encode logPart) :
    HoldsFile (putFiles base place (Utf8.encode patchPart) (Utf8.encode logPart) moment patch
      message) directory patchPart patch := by
  refine ⟨absolute, name, takes.patch.short, takes.patch.fits, place, moment,
    leads.of_keepsWays (takes.keepsWays moment patch) absolute, ?_⟩
  rw [get?_putFiles, if_neg (by simp [apart]), if_pos rfl]

/-- The log is there, as it was written last. -/
theorem holdsFile_log (absolute : directory.isAbsolute = true) (name : IsEntryName logPart)
    (leads : base.Leads directory place) {content : Bytes}
    (takes : TakesShelf base directory place patchPart logPart (some content))
    (moment : FileTime) (patch : Bytes) :
    HoldsFile (putFiles base place (Utf8.encode patchPart) (Utf8.encode logPart) moment patch
      (some content)) directory logPart content := by
  have takesLog := takes.log rfl
  refine ⟨absolute, name, takesLog.short, takesLog.fits, place, moment,
    leads.of_keepsWays (takes.keepsWays moment patch) absolute, ?_⟩
  rw [get?_putFiles, if_pos ⟨rfl, rfl⟩]
  rfl

end Written

end WorkingCopyStore

end PatchShelf
