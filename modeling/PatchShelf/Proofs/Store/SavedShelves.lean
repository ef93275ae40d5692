/-
Module: PatchShelf.Proofs.Store.SavedShelves
Purpose: The directory of shelves as a finite map from names to patches and messages.
Main exports:
  SavedShelf, SavedShelves, WorkingCopyStore.HoldsShelves, WorkingCopyStore.HoldsShelf,
  WorkingCopyStore.HoldsShelves.insert, WorkingCopyStore.HoldsShelves.erase,
  WorkingCopyStore.Represents
-/
import PatchShelf.Proofs.Store.ShelfNames

/-!
The directory of shelves stands for a map: each name has a patch file, and a message
file exactly if it has a message, and no other entry is there.  A directory that is
still to be made stands for the map without names.  Adding the files of one name and
taking them away are insertion and erasure in the map.
-/

namespace PatchShelf

/-- A shelf as it is kept: the text of its patch, and the log message if it has one. -/
structure SavedShelf where
  patch : Text
  message : Option Text
deriving Repr, DecidableEq

/-- The shelves of a working copy by name. -/
abbrev SavedShelves := Dictionary Text SavedShelf

namespace WorkingCopyStore

/-- Where the patch file of a shelf stands. -/
def patchAt (place : Location) (name : Text) : Location :=
  Utf8.encode (name ++ Shelf.patchSuffix) :: place

/-- Where the message file of a shelf stands. -/
def logAt (place : Location) (name : Text) : Location :=
  Utf8.encode (name ++ Shelf.logSuffix) :: place

/-- The keys of the patch files in a directory. -/
def keysIn (tree : FileTree) (place : Location) : List Text :=
  ((tree.names place).map Utf8.decodeEscaped).filter (·.endsWith Shelf.patchSuffix)

/-- A file with this text stands at the location. -/
def HoldsText (tree : FileTree) (location : Location) (text : Text) : Prop :=
  ∃ modified, tree.get? location = some (.file (Utf8.encode text) modified)

/-- The directory at a location holds the files of these shelves and nothing else. -/
structure HoldsShelves (tree : FileTree) (directory : Path) (place : Location)
    (shelves : SavedShelves) : Prop where
  leads : tree.Leads directory place
  named : ∀ name shelf, shelves.get? name = some shelf → ShelfName directory name
  patch : ∀ name shelf, shelves.get? name = some shelf →
    HoldsText tree (patchAt place name) shelf.patch
  log : ∀ name shelf, shelves.get? name = some shelf → ∀ message, shelf.message = some message →
    HoldsText tree (logAt place name) message
  noLog : ∀ name shelf, shelves.get? name = some shelf → shelf.message = none →
    tree.get? (logAt place name) = none
  only : ∀ fileName, tree.get? (fileName :: place) ≠ none → ∃ name, shelves.get? name ≠ none ∧
    (fileName :: place = patchAt place name ∨ fileName :: place = logAt place name)

/-! ### Locations of shelf files -/

theorem patchAt_ne_root (place : Location) (name : Text) : patchAt place name ≠ [] :=
  List.cons_ne_nil _ _

theorem patchAt_ne_logAt (place : Location) (one two : Text) :
    patchAt place one ≠ logAt place two := fun same =>
  encode_patch_ne_encode_log one two (List.cons.inj same).1

theorem patchAt_inj {place : Location} {one two : Text} (first : KeptName one)
    (second : KeptName two) (same : patchAt place one = patchAt place two) : one = two :=
  first.eq_of_encode second (List.cons.inj same).1

theorem logAt_inj {place : Location} {one two : Text} (first : KeptName one)
    (second : KeptName two) (same : logAt place one = logAt place two) : one = two :=
  first.eq_of_encode second (List.cons.inj same).1

/-- The files of two names stand apart. -/
theorem patchAt_apart (place : Location) {one two : Text} (first : KeptName one)
    (second : KeptName two) (apart : one ≠ two) :
    ¬ (patchAt place one = patchAt place two ∨ patchAt place one = logAt place two) := by
  rintro (patch | log)
  · exact apart (patchAt_inj first second patch)
  · exact patchAt_ne_logAt place one two log

theorem logAt_apart (place : Location) {one two : Text} (first : KeptName one)
    (second : KeptName two) (apart : one ≠ two) :
    ¬ (logAt place one = patchAt place two ∨ logAt place one = logAt place two) := by
  rintro (patch | log)
  · exact patchAt_ne_logAt place two one patch.symm
  · exact apart (logAt_inj first second log)

/-- No name of a message file ends like that of a patch file. -/
theorem endsWith_patch_log (name : Text) :
    (name ++ Shelf.logSuffix).endsWith Shelf.patchSuffix = false := by
  rw [Text.endsWith, Bool.eq_false_iff]
  intro ends
  obtain ⟨lead, same⟩ := List.isSuffixOf_iff_suffix.1 ends
  exact encode_patch_ne_encode_log lead name (congrArg Utf8.encode same)

/-! ### One shelf of a directory -/

/-- The files of a name hold this shelf. -/
structure HoldsShelf (tree : FileTree) (directory : Path) (place : Location) (name : Text)
    (shelf : SavedShelf) : Prop where
  named : ShelfName directory name
  patch : HoldsText tree (patchAt place name) shelf.patch
  log : ∀ message, shelf.message = some message → HoldsText tree (logAt place name) message
  noLog : shelf.message = none → tree.get? (logAt place name) = none

theorem HoldsShelf.congr {tree new : FileTree} {directory : Path} {place : Location}
    {name : Text} {shelf : SavedShelf} (held : HoldsShelf tree directory place name shelf)
    (patch : new.get? (patchAt place name) = tree.get? (patchAt place name))
    (log : new.get? (logAt place name) = tree.get? (logAt place name)) :
    HoldsShelf new directory place name shelf where
  named := held.named
  patch := by
    obtain ⟨modified, stands⟩ := held.patch
    exact ⟨modified, patch.trans stands⟩
  log := fun message given => by
    obtain ⟨modified, stands⟩ := held.log message given
    exact ⟨modified, log.trans stands⟩
  noLog := fun given => log.trans (held.noLog given)

/-- Under the name of the log stands a file, if anything. -/
theorem HoldsShelf.log_isFile {tree : FileTree} {directory : Path} {place : Location}
    {name : Text} {shelf : SavedShelf} (held : HoldsShelf tree directory place name shelf)
    {entry : Entry} (stands : tree.get? (logAt place name) = some entry) :
    ∃ content modified, entry = .file content modified := by
  cases given : shelf.message with
  | none => cases (held.noLog given).symm.trans stands
  | some message =>
      obtain ⟨modified, file⟩ := held.log message given
      exact ⟨_, modified, Option.some.inj (stands.symm.trans file)⟩

namespace HoldsShelves

variable {tree : FileTree} {directory : Path} {place : Location} {shelves : SavedShelves}
  {name : Text}

theorem holdsShelf (holds : HoldsShelves tree directory place shelves) {shelf : SavedShelf}
    (known : shelves.get? name = some shelf) : HoldsShelf tree directory place name shelf :=
  ⟨holds.named name shelf known, holds.patch name shelf known, holds.log name shelf known,
    holds.noLog name shelf known⟩

/-- A directory holds shelves if it holds each of them and nothing else. -/
theorem of_each (leads : tree.Leads directory place)
    (each : ∀ name shelf, shelves.get? name = some shelf →
      HoldsShelf tree directory place name shelf)
    (only : ∀ fileName, tree.get? (fileName :: place) ≠ none → ∃ name, shelves.get? name ≠ none ∧
      (fileName :: place = patchAt place name ∨ fileName :: place = logAt place name)) :
    HoldsShelves tree directory place shelves where
  leads := leads
  named := fun name shelf known => (each name shelf known).named
  patch := fun name shelf known => (each name shelf known).patch
  log := fun name shelf known => (each name shelf known).log
  noLog := fun name shelf known => (each name shelf known).noLog
  only := only

/-- What is held is decided by the entries of the directory. -/
theorem congr (holds : HoldsShelves tree directory place shelves) {new : FileTree}
    (leads : new.Leads directory place)
    (same : ∀ fileName, new.get? (fileName :: place) = tree.get? (fileName :: place)) :
    HoldsShelves new directory place shelves :=
  .of_each leads (fun _ _ known => (holds.holdsShelf known).congr (same _) (same _))
    fun fileName stands => holds.only fileName (same fileName ▸ stands)

/-- Nothing stands where the files of a name would, if the name is not taken. -/
theorem free (holds : HoldsShelves tree directory place shelves)
    (shelfName : ShelfName directory name) (absent : shelves.get? name = none) :
    tree.get? (patchAt place name) = none ∧ tree.get? (logAt place name) = none := by
  have taken : ∀ other, shelves.get? other ≠ none → other ≠ name := by
    rintro other known rfl
    exact known absent
  have named : ∀ other, shelves.get? other ≠ none → KeptName other := by
    intro other known
    obtain ⟨shelf, found⟩ := Option.ne_none_iff_exists'.1 known
    exact (holds.named other shelf found).toKeptName
  constructor
  · refine Decidable.byContradiction fun stands => ?_
    obtain ⟨other, known, patch | log⟩ := holds.only _ stands
    · exact taken other known (patchAt_inj shelfName.toKeptName (named other known) patch).symm
    · exact patchAt_ne_logAt place name other log
  · refine Decidable.byContradiction fun stands => ?_
    obtain ⟨other, known, patch | log⟩ := holds.only _ stands
    · exact patchAt_ne_logAt place other name patch.symm
    · exact taken other known (logAt_inj shelfName.toKeptName (named other known) log).symm

/-- Only files stand in the directory. -/
theorem noLink (holds : HoldsShelves tree directory place shelves) (fileName : FileName)
    (target : Bytes) : tree.get? (fileName :: place) ≠ some (.link target) := by
  intro linked
  obtain ⟨name, known, at_⟩ := holds.only fileName (by simp [linked])
  obtain ⟨shelf, found⟩ := Option.ne_none_iff_exists'.1 known
  have held := holds.holdsShelf found
  rcases at_ with patch | log
  · obtain ⟨modified, stands⟩ := held.patch
    rw [← patch, linked] at stands
    cases stands
  · obtain ⟨content, modified, file⟩ := held.log_isFile (log ▸ linked)
    cases file

/-- The directory takes the files of a new name. -/
theorem takesShelf (holds : HoldsShelves tree directory place shelves)
    (absolute : directory.isAbsolute = true) (shelfName : ShelfName directory name)
    (absent : shelves.get? name = none) (message : Option Bytes) :
    TakesShelf tree directory place (name ++ Shelf.patchSuffix) (name ++ Shelf.logSuffix)
      message := by
  obtain ⟨freePatch, freeLog⟩ := holds.free shelfName absent
  have logPath := shelfName.logPath absolute
  exact ⟨⟨FileTree.noWay_of_none freePatch, shelfName.short, shelfName.fits⟩, fun _ =>
    ⟨FileTree.noWay_of_none freeLog, logPath.short, logPath.fits⟩⟩

/-- Adding the files of a new name is an insertion. -/
theorem insert (holds : HoldsShelves tree directory place shelves)
    (shelfName : ShelfName directory name) {new : FileTree} (leads : new.Leads directory place)
    (moment : Instant) {patch : Text} {message : Option Text}
    (newPatch : new.get? (patchAt place name) = some (.file (Utf8.encode patch) moment))
    (newLog : new.get? (logAt place name) =
      message.map fun text => .file (Utf8.encode text) moment)
    (kept : ∀ fileName, fileName :: place ≠ patchAt place name →
      fileName :: place ≠ logAt place name →
      new.get? (fileName :: place) = tree.get? (fileName :: place)) :
    HoldsShelves new directory place (shelves.insert name ⟨patch, message⟩) := by
  have own : HoldsShelf new directory place name ⟨patch, message⟩ := by
    refine ⟨shelfName, ⟨moment, newPatch⟩, fun text given => ?_, fun given => ?_⟩
    · obtain rfl : message = some text := given
      exact ⟨moment, newLog⟩
    · obtain rfl : message = none := given
      exact newLog
  refine .of_each leads (fun other shelf known => ?_) fun fileName stands => ?_
  · rw [Dictionary.get?_insert] at known
    split at known
    · rename_i same
      obtain rfl := same
      obtain rfl := Option.some.inj known
      exact own
    · rename_i apart
      have held := holds.holdsShelf known
      have heldName := held.named.toKeptName
      have patchApart := not_or.1 (patchAt_apart place heldName shelfName.toKeptName apart)
      have logApart := not_or.1 (logAt_apart place heldName shelfName.toKeptName apart)
      exact held.congr (kept _ patchApart.1 patchApart.2) (kept _ logApart.1 logApart.2)
  · -- Every file is one of the two new ones, or was there before.
    by_cases isPatch : fileName :: place = patchAt place name
    · exact ⟨name, by simp, .inl isPatch⟩
    · by_cases isLog : fileName :: place = logAt place name
      · exact ⟨name, by simp, .inr isLog⟩
      · obtain ⟨other, old, at_⟩ := holds.only fileName (kept fileName isPatch isLog ▸ stands)
        refine ⟨other, ?_, at_⟩
        rw [Dictionary.get?_insert]
        split
        · simp
        · exact old

/-- Writing the files of a new name is an insertion. -/
theorem putFiles (holds : HoldsShelves tree directory place shelves)
    (absolute : directory.isAbsolute = true) (shelfName : ShelfName directory name)
    (absent : shelves.get? name = none) (moment : Instant) (patch : Text)
    (message : Option Text) :
    HoldsShelves (putFiles tree place (Utf8.encode (name ++ Shelf.patchSuffix))
        (Utf8.encode (name ++ Shelf.logSuffix)) moment (Utf8.encode patch)
        (message.map Utf8.encode)) directory place (shelves.insert name ⟨patch, message⟩) := by
  obtain ⟨freePatch, freeLog⟩ := holds.free shelfName absent
  have keeps := (holds.takesShelf absolute shelfName absent (message.map Utf8.encode)).keepsWays
    moment (Utf8.encode patch)
  have looked (location : Location) : (WorkingCopyStore.putFiles tree place
      (Utf8.encode (name ++ Shelf.patchSuffix)) (Utf8.encode (name ++ Shelf.logSuffix)) moment
      (Utf8.encode patch) (message.map Utf8.encode)).get? location =
      if location = logAt place name ∧ message.isSome = true then
        message.map fun text => .file (Utf8.encode text) moment
      else if location = patchAt place name then some (.file (Utf8.encode patch) moment)
      else tree.get? location := by
    rw [get?_putFiles, Option.isSome_map, Option.map_map]
    rfl
  refine holds.insert shelfName (holds.leads.of_keepsWays keeps absolute) moment ?_ ?_
    fun fileName notPatch notLog => ?_
  · rw [looked, if_neg fun same => patchAt_ne_logAt place name name same.1, if_pos rfl]
  · rw [looked]
    cases message with
    | none =>
        rw [if_neg (by simp), if_neg fun same => patchAt_ne_logAt place name name same.symm,
          freeLog]
        rfl
    | some text => rw [if_pos ⟨rfl, rfl⟩]
  · rw [looked, if_neg fun same => notLog same.1, if_neg notPatch]

/-- Taking the files of a name away is an erasure. -/
theorem erase (holds : HoldsShelves tree directory place shelves)
    (shelfName : ShelfName directory name) {new : FileTree} (leads : new.Leads directory place)
    (gone : ∀ fileName, new.get? (fileName :: place) =
      if fileName :: place = patchAt place name ∨ fileName :: place = logAt place name then none
      else tree.get? (fileName :: place)) :
    HoldsShelves new directory place (shelves.erase name) := by
  have keeps (location : FileName) (apart : ¬ (location :: place = patchAt place name ∨
      location :: place = logAt place name)) :
      new.get? (location :: place) = tree.get? (location :: place) :=
    (gone location).trans (if_neg apart)
  refine .of_each leads (fun other shelf known => ?_) fun fileName stands => ?_
  · rw [Dictionary.get?_erase] at known
    split at known
    · cases known
    · rename_i apart
      have held := holds.holdsShelf known
      exact held.congr
        (keeps _ (patchAt_apart place held.named.toKeptName shelfName.toKeptName apart))
        (keeps _ (logAt_apart place held.named.toKeptName shelfName.toKeptName apart))
  · have apart : ¬ (fileName :: place = patchAt place name ∨
        fileName :: place = logAt place name) := fun own =>
      stands ((gone fileName).trans (if_pos own))
    obtain ⟨other, known, at_⟩ := holds.only fileName (keeps fileName apart ▸ stands)
    refine ⟨other, ?_, at_⟩
    rw [Dictionary.get?_erase, if_neg]
    · exact known
    · rintro rfl
      exact apart at_

end HoldsShelves

/-- The directory of a path stands for these shelves. -/
inductive Represents (tree : FileTree) (directory : Path) (shelves : SavedShelves) : Prop
  | vacant (vacant : tree.Vacant directory) (empty : ∀ name, shelves.get? name = none)
  | held (place : Location) (holds : HoldsShelves tree directory place shelves)

end WorkingCopyStore

end PatchShelf
