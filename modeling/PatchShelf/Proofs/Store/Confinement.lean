/-
Module: PatchShelf.Proofs.Store.Confinement
Purpose: The store touches no files but those of the shelf, in the administrative area.
Main exports:
  StoreCall.shelf?, StoreCall.start?, WorkingCopyStore.FourFiles, WorkingCopyStore.StaysInside,
  WorkingCopyStore.Confined, WorkingCopyStore.confined_of_touches,
  WorkingCopyStore.passes_perform, WorkingCopyStore.confined_and_apart
-/
import PatchShelf.Proofs.Store.FoundShelf
import PatchShelf.Proofs.Store.SavedShelves
import PatchShelf.Proofs.Store.ShelfTouches
import PatchShelf.Settings

/-!
The directory of shelves lies in the administrative area of the working copy, and the files of
a shelf lie in this directory, whatever its name is.  So what an operation of the store does
itself stays in that area, as long as the client leaves the area and puts no link into it.
-/

namespace PatchShelf

namespace StoreCall

/-- The shelf that a call is about. -/
def shelf? : StoreCall → Option Text
  | list _ => none
  | create request => some request.name
  | delete name _ _ => some name
  | apply name _ _ _ => some name

/-- The path from which a call looks for its working copy. -/
def start? : StoreCall → Option Text
  | list root => some root
  | create request => request.targets.head?
  | delete _ root _ => some root
  | apply _ root _ _ => some root

/-- Is the call one that adds a shelf? -/
def adds : StoreCall → Bool
  | list _ => false
  | create _ => true
  | delete _ _ _ => false
  | apply _ _ _ _ => false

end StoreCall

namespace WorkingCopyStore

open Activity (calls)
open FileTree (IsEntryName LinkFree Spelled)
open Machine (Passes)

variable {settings : WorkingCopyStore} {directory path : Path} {name other : Text}
  {machine : Machine} {root : Location} {one two : FileTree} {adds : Bool}

/-! ### Where the files of a shelf are -/

/-- Where the administrative area of a working copy is. -/
def adminAt (root : Location) : Location :=
  Utf8.encode adminName :: root

/-- Where the directory of shelves of a working copy is. -/
def shelvesAt (settings : WorkingCopyStore) (root : Location) : Location :=
  Location.ofPath (settings.shelvesPath root.toPath)

/-- Accepted settings name a directory below the administrative area, without leading up. -/
theorem shelvesPath_eq_below
    (legal : Settings.acceptsDirectory settings.shelvesDirectory = true) (root : Path) :
    settings.shelvesPath root =
        (adminPath root).below (Path.ofText settings.shelvesDirectory).parts ∧
      Path.up ∉ (Path.ofText settings.shelvesDirectory).parts := by
  simp only [Settings.acceptsDirectory, Bool.not_eq_true', Bool.or_eq_false_iff] at legal
  obtain ⟨⟨-, relative⟩, inside⟩ := legal
  refine ⟨?_, by simpa using inside⟩
  rw [shelvesPath_eq]
  exact Path.join_of_not_isAbsolute _ (by simp [relative])

theorem adminAt_suffix (legal : Settings.acceptsDirectory settings.shelvesDirectory = true)
    (root : Location) : adminAt root <:+ settings.shelvesAt root := by
  rw [shelvesAt, (shelvesPath_eq_below legal _).1]
  have admin : Location.ofPath (adminPath root.toPath) = adminAt root := by
    rw [adminPath, Location.ofPath_child, Location.ofPath_toPath, adminAt]
  rw [← admin]
  simp [Location.ofPath, Path.below]

/-- Two shelves have two files each in a directory: the four have different paths, and stand at
different places if the names differ in bytes. -/
def FourFiles (directory : Path) (name other : Text) : Prop :=
  ∃ patch log otherPatch otherLog,
    shelfFile directory name Shelf.patchSuffix = .ok patch ∧
    shelfFile directory name Shelf.logSuffix = .ok log ∧
    shelfFile directory other Shelf.patchSuffix = .ok otherPatch ∧
    shelfFile directory other Shelf.logSuffix = .ok otherLog ∧
    [patch, log, otherPatch, otherLog].Nodup ∧
    (Utf8.encode name ≠ Utf8.encode other →
      ([patch, log, otherPatch, otherLog].map Location.ofPath).Nodup)

theorem four_files (directory : Path) (accepted : Arguments.checkShelfName name = .ok name)
    (otherAccepted : Arguments.checkShelfName other = .ok other) (apart : name ≠ other) :
    FourFiles directory name other := by
  refine ⟨_, _, _, _, shelfFile_of_accepted accepted directory isSuffix_patch,
    shelfFile_of_accepted accepted directory isSuffix_log,
    shelfFile_of_accepted otherAccepted directory isSuffix_patch,
    shelfFile_of_accepted otherAccepted directory isSuffix_log, ?_, fun bytes => ?_⟩
  · have mixed (one two : Text) : one ++ Shelf.patchSuffix ≠ two ++ Shelf.logSuffix :=
      fun same => encode_patch_ne_encode_log one two (congrArg Utf8.encode same)
    have child (one two : Text) : directory.child one = directory.child two ↔ one = two :=
      ⟨fun same => (Path.child_inj same).2, fun same => same ▸ rfl⟩
    simp [List.nodup_cons, child, mixed, (mixed _ _).symm, apart]
  · have mixed := encode_patch_ne_encode_log
    have cancel (suffix : Text) :
        Utf8.encode (name ++ suffix) ≠ Utf8.encode (other ++ suffix) := by
      rw [Utf8.encode_append, Utf8.encode_append]
      exact fun same => bytes (List.append_cancel_right same)
    simp only [List.map_cons, List.map_nil, Location.ofPath_child, List.nodup_cons,
      List.mem_cons, List.not_mem_nil, List.cons.injEq, and_true, or_false, mixed,
      (mixed _ _).symm, cancel, not_false_eq_true, List.nodup_nil]

/-- The files of two accepted names that differ in bytes have no place in common. -/
theorem place_ne_of_bytes {file : Path} (accepted : Arguments.checkShelfName name = .ok name)
    (otherAccepted : Arguments.checkShelfName other = .ok other)
    (bytes : Utf8.encode name ≠ Utf8.encode other) (own : IsShelfFile directory name path)
    (others : IsShelfFile directory other file) :
    Location.ofPath path ≠ Location.ofPath file := by
  obtain ⟨patch, log, otherPatch, otherLog, first, second, third, fourth, -, places⟩ :=
    four_files directory accepted otherAccepted fun same => bytes (congrArg Utf8.encode same)
  have mine : path = patch ∨ path = log := by
    obtain ⟨suffix, member, given⟩ := own
    rcases List.mem_pair.1 member with rfl | rfl
    · exact .inl (Except.ok.inj (given.symm.trans first))
    · exact .inr (Except.ok.inj (given.symm.trans second))
  have theirs : file = otherPatch ∨ file = otherLog := by
    obtain ⟨suffix, member, given⟩ := others
    rcases List.mem_pair.1 member with rfl | rfl
    · exact .inl (Except.ok.inj (given.symm.trans third))
    · exact .inr (Except.ok.inj (given.symm.trans fourth))
  have apart := places bytes
  simp only [List.map_cons, List.map_nil, List.nodup_cons, List.mem_cons, List.not_mem_nil,
    or_false, not_or] at apart
  obtain ⟨⟨-, patches, patchLog⟩, ⟨logPatch, logs⟩, -⟩ := apart
  rcases mine with rfl | rfl
  · rcases theirs with rfl | rfl
    · exact patches
    · exact patchLog
  · rcases theirs with rfl | rfl
    · exact logPatch
    · exact logs

/-! ### What an operation does itself -/

/-- What was touched between two trees: the files of the shelf, and directories that were
made on the way from the administrative area to the directory of shelves. -/
def StaysInside (settings : WorkingCopyStore) (root : Location) (name : Text)
    (one two : FileTree) : Prop :=
  ∀ location, two.get? location ≠ one.get? location →
    (∃ path, IsShelfFile (settings.shelvesPath root.toPath) name path ∧
      location = Location.ofPath path) ∨
    (adminAt root <:+ location ∧ location <:+ settings.shelvesAt root ∧
      two.get? location = some .directory)

/-- An operation on a shelf changes the files by touches.  It stays inside, unless it adds a
shelf and finds that the administrative area is gone.  It leaves the files of every other shelf
alone. -/
structure Confined (settings : WorkingCopyStore) (root : Location) (adds : Bool) (name : Text)
    (one two : FileTree) : Prop where
  touches : Relation.ReflTransGen (Touch adds (settings.shelvesPath root.toPath) name) one two
  inside : adds = false ∨ one.get? (adminAt root) = some .directory →
    StaysInside settings root name one two
  others : Arguments.checkShelfName name = .ok name → ∀ other,
    Arguments.checkShelfName other = .ok other → Utf8.encode name ≠ Utf8.encode other →
    ∀ path, IsShelfFile (settings.shelvesPath root.toPath) other path →
      two.get? (Location.ofPath path) = one.get? (Location.ofPath path)

/-- A location after a touch: it is as before, unless it is that of a file of the shelf or a
directory was made there, on the way to the directory of shelves. -/
theorem get?_of_touch (touch : Touch adds directory name one two) (location : Location) :
    two.get? location = one.get? location ∨
      (∃ path, IsShelfFile directory name path ∧ location = Location.ofPath path) ∨
      (adds = true ∧ location <:+ Location.ofPath directory ∧ one.get? location = none ∧
        two.get? location = some .directory) := by
  have below (path : Path) (own : IsShelfFile directory name path) : Location.ofPath path ≠ [] := by
    obtain ⟨part, -, rfl⟩ := own.exists_child
    rw [Location.ofPath_child]
    exact List.cons_ne_nil _ _
  cases touch with
  | makes adding place onWay absent =>
      have inner : place ≠ [] := by
        rintro rfl
        cases absent
      rw [FileTree.get?_put _ _ _ _ inner]
      split
      · rename_i here
        exact .inr (.inr ⟨adding, here ▸ onWay, here ▸ absent, rfl⟩)
      · exact .inl rfl
  | writes path own content moment =>
      rw [FileTree.get?_put _ _ _ _ (below path own)]
      split
      · rename_i here
        exact .inr (.inl ⟨path, own, here⟩)
      · exact .inl rfl
  | unlinks path own =>
      rw [FileTree.get?_remove _ _ _ (below path own)]
      split
      · rename_i here
        exact .inr (.inl ⟨path, own, here⟩)
      · exact .inl rfl

theorem get?_of_touches (touches : Relation.ReflTransGen (Touch adds directory name) one two)
    (location : Location) :
    two.get? location = one.get? location ∨
      (∃ path, IsShelfFile directory name path ∧ location = Location.ofPath path) ∨
      (adds = true ∧ location <:+ Location.ofPath directory ∧ one.get? location = none ∧
        two.get? location = some .directory) := by
  induction touches with
  | refl => exact .inl rfl
  | tail earlier touch ih =>
      rcases get?_of_touch touch location with same | file | ⟨adding, onWay, absent, made⟩
      · rw [same]
        exact ih
      · exact .inr (.inl file)
      · rcases ih with same | file | ⟨-, -, -, standing⟩
        · exact .inr (.inr ⟨adding, onWay, same ▸ absent, made⟩)
        · exact .inr (.inl file)
        · rw [standing] at absent
          cases absent

/-- In a tree without links, the area that stands holds everything that touches make. -/
theorem confined_of_touches
    (legal : Settings.acceptsDirectory settings.shelvesDirectory = true) (free : one.LinkFree)
    (touches : Relation.ReflTransGen (Touch adds (settings.shelvesPath root.toPath) name) one two) :
    Confined settings root adds name one two := by
  refine ⟨touches, fun held location changed => ?_, ?_⟩
  · rcases get?_of_touches touches location with same | file | ⟨adding, onWay, absent, made⟩
    · exact absurd same changed
    · exact .inl file
    · have stands : one.get? (adminAt root) = some .directory :=
        held.resolve_left (by simp [adding])
      refine .inr ⟨?_, onWay, made⟩
      rcases List.suffix_or_suffix_of_suffix onWay (adminAt_suffix legal root) with above | below
      · rw [free.get?_of_suffix stands above] at absent
        cases absent
      · exact below
  · intro accepted other otherAccepted apart path own
    rcases get?_of_touches touches (Location.ofPath path) with same | ⟨file, mine, place⟩ | made
    · exact same
    · exact absurd place.symm (place_ne_of_bytes accepted otherAccepted apart mine own)
    · obtain ⟨-, onWay, -⟩ := made
      obtain ⟨part, -, rfl⟩ := own.exists_child
      rw [Location.ofPath_child] at onWay
      exact absurd onWay.length_le (by simp)

/-! ### The working copy of an operation -/

theorem spelled_toPath (named : ∀ fileName ∈ root, FileName.IsEntry fileName) :
    Spelled root.toPath := by
  refine ⟨rfl, fun part member => ?_⟩
  obtain ⟨fileName, inside, rfl⟩ := List.mem_map.1 member
  exact FileTree.isEntryName_decodeEscaped (named fileName (List.mem_reverse.1 inside))

/-- The administrative area of a root is where its path says. -/
theorem IsRoot.stands_adminAt (isRoot : IsRoot one root) (free : one.LinkFree) :
    one.get? (adminAt root) = some .directory := by
  have named : ∀ fileName ∈ root, FileName.IsEntry fileName :=
    free.isEntry_of_mem (by simp [isRoot.stands])
  obtain ⟨admin, leads⟩ := isRoot.area
  have spelled : Spelled (adminPath root.toPath) :=
    (spelled_toPath named).child isEntryName_adminName
  have place : admin = adminAt root := by
    refine (free.location_eq spelled leads).trans ?_
    rw [adminPath, Location.ofPath_child, Location.ofPath_toPath, adminAt]
  rw [← place]
  exact FileTree.holds_of_locate_absolute free.grounded rfl leads

/-- The directory of shelves of a working copy has a path that never leads upwards. -/
theorem spelled_shelvesPath
    (legal : Settings.acceptsDirectory settings.shelvesDirectory = true) (sound : one.Sound)
    (isRoot : IsRoot one root) : Spelled (settings.shelvesPath root.toPath) :=
  ⟨isAbsolute_shelvesPath settings root,
    isEntryName_of_mem_shelvesPath sound isRoot (shelvesPath_eq_below legal root.toPath).2⟩

/-- A working copy is found again from its root where its administrative area stands. -/
theorem findRoot_of_stands (sound : machine.Sound) (fits : (adminPath root.toPath).Fits)
    (stands : machine.tree.get? (adminAt root) = some .directory) :
    ((findRoot root.toPath.toText).run machine).result = .ok root.toPath := by
  have area : (adminAt root).toPath = adminPath root.toPath := by
    have back : Utf8.decodeEscaped (Utf8.encode adminName) = adminName := by decide +kernel
    rw [adminAt, Location.toPath_cons, back, adminPath]
  refine findRoot_of_isRoot sound.tree ⟨?_, adminAt root, ?_⟩
  · exact sound.tree.get?_of_suffix stands (List.suffix_cons _ _)
  · rw [← area] at fits ⊢
    exact sound.tree.leads_toPath stands fits

/-! ### Operations of the store -/

/-- The client leaves a tree without links whenever it is called. -/
def LeavesNoLinks (trail : List Activity) : Prop :=
  ∀ call ∈ calls trail, call.left.LinkFree

theorem isRoot_of_rooted (sound : machine.Sound) {text : Text}
    (rooted : ((findRoot text).run machine).result = .ok root.toPath) :
    IsRoot machine.tree root := by
  obtain ⟨location, same, isRoot⟩ := isRoot_of_findRoot sound rooted
  rwa [← Location.ofPath_toPath root, same, Location.ofPath_toPath]

/-- A patch that can be read lies in an administrative area that stands. -/
theorem stands_of_read (legal : Settings.acceptsDirectory settings.shelvesDirectory = true)
    (free : one.LinkFree) (spelled : Spelled (settings.shelvesPath root.toPath))
    (own : IsShelfFile (settings.shelvesPath root.toPath) name path) {base : Location}
    {content : Bytes} (read : one.read base path = .ok content) :
    one.get? (adminAt root) = some .directory := by
  obtain ⟨part, isName, rfl⟩ := own.exists_child
  have child := spelled.child isName
  rw [FileTree.read, FileTree.locate_base one base .target child.absolute] at read
  split at read
  · rename_i location _ modified located
    have place := free.location_eq child located
    have stands := FileTree.holds_of_locate_absolute free.grounded child.absolute located
    rw [Location.ofPath_child] at place
    obtain rfl : location = _ := place
    have there : one.get? (Utf8.encode part :: settings.shelvesAt root) ≠ none := by
      rw [shelvesAt, stands]
      exact Option.some_ne_none _
    have above := free.grounded _ _ there
    exact free.get?_of_suffix above (adminAt_suffix legal root)
  all_goals cases read

/-- An application touches a shelf of the working copy that it starts from: when it looks for
this again, the patch has been read in it. -/
theorem passes_apply (legal : Settings.acceptsDirectory settings.shelvesDirectory = true)
    (sound : machine.Sound) {text : Text}
    (rooted : ((findRoot text).run machine).result = .ok root.toPath) {keepLocal dryRun : Bool}
    (leaves : LeavesNoLinks ((settings.apply name text keepLocal dryRun).run machine).events) :
    Passes (KeepsTo adds (settings.shelvesPath root.toPath) name)
      (settings.apply name text keepLocal dryRun) machine := by
  have isRoot := isRoot_of_rooted sound rooted
  have spelled := spelled_shelvesPath legal sound.tree isRoot
  obtain ⟨admin, area⟩ := isRoot.area
  have fits : (adminPath root.toPath).Fits := (FileTree.fits_of_locate rfl area).1
  refine .bind_reads KeepsTo.refl (reads_findRoot text) fun found ended => ?_
  obtain rfl := Except.ok.inj (rooted.symm.trans ended)
  refine .bind_reads KeepsTo.refl (reads_existingPatch _ _) fun patchPath looked => ?_
  refine .bind KeepsTo.trans (passes_runClient KeepsTo.refl _ _ _) fun output answered =>
    passes_finishApply spelled fun content read found again => ?_
  by_cases called : settings.CanRun machine root.toPath "patch" (patchArguments patchPath dryRun)
  · have tame := leaves _ (mem_calls_apply_iff.2 ⟨_, _, rooted, looked, called, rfl⟩)
    rw [run_runClient called] at read again
    have after : (machine.afterCall settings.program).Sound := .afterCall machine _ tame.toSound
    have stands := stands_of_read legal tame spelled (isShelfFile_of_existingPatch looked) read
    exact Except.ok.inj (again.symm.trans (findRoot_of_stands after fits stands))
  · obtain ⟨reason, stopped⟩ := exists_run_runClient called
    rw [stopped] at answered
    cases answered

/-- The calls of a call of the store do not depend on what is made of its result. -/
theorem calls_bind_pure {α β : Type} (action : Machine.Operation α) (result : β)
    (machine : Machine) :
    calls ((action >>= fun _ => pure result).run machine).events =
      calls (action.run machine).events := by
  rw [Effect.run_bind]
  cases (action.run machine).result with
  | error reason => rfl
  | ok value => simp

/-- Without a working copy, a call about a shelf does nothing. -/
theorem run_perform_of_lost {call : StoreCall} (about : call.shelf? = some name)
    (lost : ∀ text, call.start? = some text → ∀ found,
      ((findRoot text).run machine).result ≠ .ok found) :
    ∃ reason, (settings.perform call).run machine = ⟨.error reason, machine, []⟩ := by
  have stops {α : Type} {action : Machine.Operation α}
      (ends : ∃ reason, action.run machine = ⟨.error reason, machine, []⟩)
      (result : Option Shelves) :
      ∃ reason, (action >>= fun _ => pure result).run machine = ⟨.error reason, machine, []⟩ := by
    obtain ⟨reason, ended⟩ := ends
    exact ⟨reason, Effect.run_bind_error ended⟩
  have looks {text : Text} {α : Type} (start : call.start? = some text)
      (next : Path → Machine.Operation α) :
      ∃ reason, (findRoot text >>= next).run machine = ⟨.error reason, machine, []⟩ := by
    rw [(reads_findRoot text).run_bind]
    cases rooted : ((findRoot text).run machine).result with
    | error reason => exact ⟨reason, rfl⟩
    | ok found => exact absurd rooted (lost text start found)
  cases call with
  | list root => cases about
  | delete shelf text dryRun => exact stops (looks rfl _) none
  | apply shelf text keepLocal dryRun => exact stops (looks rfl _) none
  | create request =>
      refine stops ?_ none
      rw [create, (reads_prepare settings request).run_bind]
      cases ended : ((settings.prepare request).run machine).result with
      | error reason => exact ⟨reason, rfl⟩
      | ok pair =>
          obtain ⟨first, rest, targets, rooted⟩ := (prepared_of_ok ended).inside
          exact absurd rooted (lost first (by rw [StoreCall.start?, targets]; rfl) _)

/-- A call about a shelf touches its files in the working copy that it starts from. -/
theorem passes_perform (legal : Settings.acceptsDirectory settings.shelvesDirectory = true)
    {call : StoreCall} (about : call.shelf? = some name) (sound : machine.Sound)
    {text : Text} (start : call.start? = some text)
    (rooted : ((findRoot text).run machine).result = .ok root.toPath)
    (leaves : LeavesNoLinks ((settings.perform call).run machine).events) :
    Passes (KeepsTo call.adds (settings.shelvesPath root.toPath) name) (settings.perform call)
      machine := by
  have spelled := spelled_shelvesPath legal sound.tree (isRoot_of_rooted sound rooted)
  have settled {other : Path} (again : ((findRoot text).run machine).result = .ok other) :
      other = root.toPath := (Except.ok.inj (rooted.symm.trans again)).symm
  have ended {action : Machine.Operation Unit}
      (passes : Passes (KeepsTo call.adds (settings.shelvesPath root.toPath) name) action machine)
      (result : Option Shelves) :
      Passes (KeepsTo call.adds (settings.shelvesPath root.toPath) name)
        (action >>= fun _ => pure result) machine :=
    .bind KeepsTo.trans passes fun _ _ => .ofReads KeepsTo.refl (.pure result)
  cases call with
  | list root => cases about
  | delete shelf path dryRun =>
      obtain rfl := Option.some.inj about
      obtain rfl := Option.some.inj start
      exact ended (passes_delete spelled fun _ => settled) none
  | apply shelf path keepLocal dryRun =>
      obtain rfl := Option.some.inj about
      obtain rfl := Option.some.inj start
      rw [perform, LeavesNoLinks, calls_bind_pure] at leaves
      exact ended (passes_apply legal sound rooted leaves) none
  | create request =>
      obtain rfl := Option.some.inj about
      refine ended (passes_create spelled ?_) none
      intro patchPath other prepared
      obtain ⟨first, rest, targets, found⟩ := (prepared_of_ok prepared).inside
      rw [StoreCall.start?, targets] at start
      obtain rfl := Option.some.inj start
      exact settled found

/-! ### Confinement and non-interference -/

/-- The directory of shelves lies in the administrative area, and the files of a shelf lie in it
whatever the name is; accepted names have files of their own.  An operation on a shelf does
nothing without a working copy, and in one it is confined between any two calls of the client,
as long as this leaves no links. -/
theorem confined_and_apart (settings : WorkingCopyStore)
    (legal : Settings.acceptsDirectory settings.shelvesDirectory = true) :
    (∀ root, settings.shelvesPath root =
        (adminPath root).below (Path.ofText settings.shelvesDirectory).parts ∧
      Path.up ∉ (Path.ofText settings.shelvesDirectory).parts) ∧
    (∀ directory name path, IsShelfFile directory name path →
      path.parent = directory ∧ ∃ part, IsEntryName part ∧ path = directory.child part) ∧
    (∀ directory name other, Arguments.checkShelfName name = .ok name →
      Arguments.checkShelfName other = .ok other → name ≠ other →
        FourFiles directory name other) ∧
    ∀ (call : StoreCall) (name : Text) (machine : Machine), call.shelf? = some name →
      machine.Sound → machine.tree.LinkFree →
      let outcome := (settings.perform call).run machine
      LeavesNoLinks outcome.events →
        ((∀ text, call.start? = some text → ∀ found,
            ((findRoot text).run machine).result ≠ .ok found) →
          outcome.events = [] ∧ outcome.world = machine) ∧
        ∀ text found, call.start? = some text →
          ((findRoot text).run machine).result = .ok found →
            ∃ root : Location, found = root.toPath ∧ Path.up ∉ found.parts ∧
              machine.tree.get? (adminAt root) = some .directory ∧
              Stretches (Confined settings root call.adds name) machine.tree
                (calls outcome.events) outcome.world.tree := by
  refine ⟨shelvesPath_eq_below legal, fun directory name path own => ?_,
    fun directory name other => four_files directory, ?_⟩
  · obtain ⟨part, isName, rfl⟩ := own.exists_child
    exact ⟨Path.parent_child _ _, part, isName, rfl⟩
  · intro call name machine about sound free outcome leaves
    refine ⟨fun lost => ?_, fun text found start rooted => ?_⟩
    · have stops : ∃ reason, outcome = ⟨.error reason, machine, []⟩ :=
        run_perform_of_lost about lost
      obtain ⟨reason, stopped⟩ := stops
      exact ⟨congrArg Outcome.events stopped, congrArg Outcome.world stopped⟩
    · obtain ⟨root, rfl, isRoot⟩ := isRoot_of_findRoot sound rooted
      refine ⟨root, rfl, fun up => ?_, isRoot.stands_adminAt free, ?_⟩
      · have spelled : Spelled root.toPath :=
          spelled_toPath (sound.tree.isEntry_of_mem (by simp [isRoot.stands]))
        exact (spelled.names _ up).plain.descends (by decide +kernel)
      · exact (passes_perform legal about sound start rooted leaves).of_starts free leaves
          fun one two begun keeps => confined_of_touches legal begun (keeps begun).2

/-- A machine with a working copy `/wc` and more entries, and a client that gives a patch and
makes a change. -/
def changingMachine (more : List (Text × Entry)) (change : FileTree → FileTree) : Machine where
  tree := more.foldl (fun tree entry => tree.put (Location.ofPath (Path.ofText entry.1)) entry.2)
    (plainMachine []).tree
  directory := []
  clock := .epoch
  programs := .ofList [("svn", ⟨true, [⟨0, Utf8.encode "Index: a\n+x\n", [], change⟩]⟩)]

/-- A call that makes the shelf `n` and leaves its changes in the working copy. -/
def keepingCall : StoreCall :=
  .create { plainRequest none with keepLocal := true }

theorem confined_and_apart_plain :
    FourFiles plainDirectory "n" "m" ∧
      Stretches (Confined plainSettings [Utf8.encode "wc"] true "n") (changingMachine [] id).tree
        (calls ((plainSettings.perform keepingCall).run (changingMachine [] id)).events)
        ((plainSettings.perform keepingCall).run (changingMachine [] id)).world.tree := by
  have free : (changingMachine [] id).tree.LinkFree :=
    LinkFree.of_entries (by decide +kernel) (by decide +kernel)
  have sound : (changingMachine [] id).Sound := ⟨free.toSound, fun _ => by decide +kernel⟩
  have leaves : LeavesNoLinks
      ((plainSettings.perform keepingCall).run (changingMachine [] id)).events := by
    have still : ∀ call ∈ calls ((plainSettings.perform keepingCall).run
        (changingMachine [] id)).events, call.left = (changingMachine [] id).tree := by
      decide +kernel
    exact fun call made => still call made ▸ free
  obtain ⟨-, -, fours, runs⟩ := confined_and_apart plainSettings (by decide)
  obtain ⟨-, inside⟩ := runs keepingCall "n" (changingMachine [] id) rfl sound free leaves
  obtain ⟨root, same, -, -, confined⟩ :=
    inside "/wc" ⟨.root, ["wc"]⟩ rfl (by decide +kernel)
  obtain rfl : root = [Utf8.encode "wc"] := by
    rw [← Location.ofPath_toPath root, ← same]
    rfl
  exact ⟨fours plainDirectory "n" "m" (by decide) (by decide) (by decide), confined⟩

/-- What is touched by an operation that stays inside is in the administrative area. -/
theorem StaysInside.below (stays : StaysInside settings root name one two)
    (legal : Settings.acceptsDirectory settings.shelvesDirectory = true) {location : Location}
    (changed : two.get? location ≠ one.get? location) : adminAt root <:+ location := by
  rcases stays location changed with ⟨path, own, rfl⟩ | ⟨below, -⟩
  · obtain ⟨part, -, rfl⟩ := own.exists_child
    rw [Location.ofPath_child]
    exact (adminAt_suffix legal root).trans (List.suffix_cons _ _)
  · exact below

/-- In a tree without links, the call finds its working copy, and something outside of the
administrative area is changed, and not by the client. -/
structure Strays (call : StoreCall) (root : Location) (machine : Machine) : Prop where
  sound : machine.Sound
  free : machine.tree.LinkFree
  rooted : ∃ text, call.start? = some text ∧
    ((findRoot text).run machine).result = .ok root.toPath
  outside : ∀ name, ¬ Stretches (StaysInside plainSettings root name) machine.tree
    (calls ((plainSettings.perform call).run machine).events)
    ((plainSettings.perform call).run machine).world.tree

/-- To stray, it is enough to change something else after the last call of the client. -/
theorem Strays.of_last {call : StoreCall} {text : Text} (location : Location)
    (sound : machine.tree.Sound) (standing : machine.tree.get? machine.directory = some .directory)
    (linkless : ∀ pair ∈ machine.tree.entries.pairs, pair.2.isLink = false)
    (start : call.start? = some text)
    (rooted : ((findRoot text).run machine).result = .ok root.toPath)
    (changed : ((calls ((plainSettings.perform call).run machine).events).getLast?.any
      fun made => decide (((plainSettings.perform call).run machine).world.tree.get? location ≠
        made.left.get? location)) = true)
    (outside : ¬ adminAt root <:+ location) : Strays call root machine := by
  refine ⟨⟨sound, fun _ => standing⟩, LinkFree.of_entries sound linkless, ⟨text, start, rooted⟩,
    fun name run => outside ?_⟩
  obtain ⟨made, last, differs⟩ := (Option.any_eq_true _ _).1 changed
  exact (run.of_getLast? last).below (by decide) (of_decide_eq_true differs)

/-- A call strays if the client takes the working copy away, which is then made again, and if the
client puts a link in the place of a file of the shelf.  Two accepted names have one file if they
differ in how the same bytes are spelled. -/
theorem strays_in_each_way :
    Strays keepingCall [Utf8.encode "wc"]
        (changingMachine [] fun tree => tree.removeBelow [Utf8.encode "wc"]) ∧
      Strays keepingCall [Utf8.encode "wc"]
        (changingMachine [("/wc/.svn/shelves", .directory)] fun tree =>
          tree.put (Location.ofPath (Path.ofText "/wc/.svn/shelves/n.patch"))
            (.link (Utf8.encode "/kept"))) ∧
      ∃ name other path file, name ≠ other ∧ Arguments.checkShelfName name = .ok name ∧
        Arguments.checkShelfName other = .ok other ∧ IsShelfFile plainDirectory name path ∧
        IsShelfFile plainDirectory other file ∧ Location.ofPath path = Location.ofPath file := by
  refine ⟨.of_last [Utf8.encode "wc"] (by decide +kernel) rfl (by decide +kernel) rfl
    (by decide +kernel) (by decide +kernel) (by decide +kernel),
    .of_last [Utf8.encode "kept"] (by decide +kernel) rfl (by decide +kernel) rfl
    (by decide +kernel) (by decide +kernel) (by decide +kernel), ?_⟩
  exact ⟨[.raw 0x43, .raw 0x29], "é", _, _, by decide, by decide, by decide,
    ⟨_, List.mem_cons_self, rfl⟩, ⟨_, List.mem_cons_self, rfl⟩, by decide +kernel⟩

end WorkingCopyStore

end PatchShelf
