/-
Module: PatchShelf.Proofs.Store.Limits
Purpose: Where the limits of the system make the store refuse what the map of shelves does.
Main exports:
  WorkingCopyStore.exists_turned_create_of_long,
  WorkingCopyStore.exists_turned_list_of_late, WorkingCopyStore.refusals_beyond_limits
-/
import PatchShelf.Proofs.Store.Refinement

/-!
A run agrees with the map as long as the paths of new patches are not too long for the
system and the times of listed patches can be read.  Neither of these can be left out:
a shelf behind a path that is too long is not made, and shelves are not listed if the
time of one of them cannot be read, whatever the map says.
-/

namespace PatchShelf

namespace WorkingCopyStore

variable {settings : WorkingCopyStore} {root directory : Path} {machine : Machine}
  {shelves : SavedShelves} {turn : Turn}

/-- The root is found from its own path, whatever the turn. -/
theorem findRoot_start {location : Location} (sound : machine.Sound)
    (isRoot : IsRoot machine.tree location) (turn : Turn) :
    ((findRoot location.toPath.toText).run (turn.start machine)).result = .ok location.toPath :=
  findRoot_of_isRoot (turn.sound_start sound).tree isRoot

/-- A request for a patch whose path is too long is refused before the client is called. -/
theorem exists_turned_create_of_long {request : CreateRequest} {first : Text} {rest : List Text}
    (asked : turn.call = .create request) (targets : request.targets = first :: rest)
    (found : ((findRoot first).run (turn.start machine)).result = .ok root)
    (kept : KeptName request.name)
    (noNull : ((settings.shelvesPath root).child
      (request.name ++ Shelf.patchSuffix)).toText.holds '\x00' = false)
    (long : FileTree.longestPath < (Utf8.encode ((settings.shelvesPath root).child
      (request.name ++ Shelf.patchSuffix)).toText).length) :
    ∃ reason, settings.turned turn machine = ⟨.error reason, turn.start machine, []⟩ := by
  rw [turned, asked, perform, run_unanswered]
  rcases create_cases settings request (turn.start machine) with
    ⟨reason, -, stopped⟩ | ⟨other, path, prepared, -⟩
  · rw [stopped]
    exact ⟨reason, rfl⟩
  · obtain ⟨begin, more, sameTargets, sameRoot⟩ := prepared.inside
    obtain rfl := (List.cons.inj (targets.symm.trans sameTargets)).1
    obtain rfl := Except.ok.inj (found.symm.trans sameRoot)
    have named := prepared.named
    rw [kept.shelfFile _ isSuffix_patch] at named
    obtain rfl := Except.ok.inj named
    have absent := prepared.absent
    rw [FileTree.isPresent_of_long _ _ noNull long] at absent
    cases absent

/-- A patch whose time cannot be read keeps the shelves from being listed. -/
theorem exists_turned_list_of_late {path name : Text} {place : Location} {content : Bytes}
    {modified : FileTime} {fault : Fault} (asked : turn.call = .list path)
    (found : ((findRoot path).run (turn.start machine)).result = .ok root)
    (absolute : (settings.shelvesPath root).isAbsolute = true)
    (holds : HoldsShelves machine.tree (settings.shelvesPath root) place shelves)
    (stands : machine.tree.get? (patchAt place name) = some (.file content modified))
    (late : modified.read = .error fault) :
    ∃ reason, settings.turned turn machine = ⟨.error reason, turn.start machine, []⟩ := by
  obtain ⟨reason, refused⟩ := exists_stop_list found absolute holds stands late
  rw [turned, asked, perform, Effect.run_bind, refused]
  exact ⟨reason, rfl⟩

/-- A turn that stops does not agree with a verdict that succeeds. -/
theorem not_agrees_of_error {outcome : Outcome Activity Machine (Option Shelves)} {ended : Verdict}
    {reason : Stop} (stopped : outcome.result = .error reason) (succeeds : ended.succeeds = true) :
    ¬ Agrees directory outcome ended := by
  intro agrees
  obtain ⟨value, good⟩ := agrees.succeeds.2 succeeds
  rw [stopped] at good
  cases good

/-! ### A working copy far down -/

/-- A tree with the directories down to a location and nothing else. -/
def treeDownTo : Location → FileTree
  | [] => .empty
  | name :: above => (treeDownTo above).put (name :: above) .directory

theorem get?_treeDownTo (location other : Location) :
    (treeDownTo location).get? other = if other <:+ location then some .directory else none := by
  induction location with
  | nil =>
      by_cases root : other = []
      · rw [root, if_pos List.suffix_rfl]
        rfl
      · rw [if_neg (mt List.suffix_nil.1 root), treeDownTo, FileTree.get?, if_neg root]
        rfl
  | cons name above ih =>
      rw [treeDownTo, FileTree.get?_put _ _ _ _ (List.cons_ne_nil _ _), ih]
      by_cases whole : other = name :: above
      · rw [if_pos whole, if_pos (whole ▸ List.suffix_rfl)]
      · simp [List.suffix_cons_iff, whole]

theorem sound_treeDownTo {location : Location} (valid : ∀ name ∈ location, FileName.IsEntry name) :
    (treeDownTo location).Sound := by
  induction location with
  | nil => exact (FileTree.sound_iff _).2 nofun
  | cons name above ih =>
      have higher := ih fun other member => valid other (List.mem_cons_of_mem _ member)
      refine higher.put _ (valid name List.mem_cons_self) (FileTree.noWay_of_none ?_) ?_
      · have longer : ¬ name :: above <:+ above := fun suffix =>
          absurd suffix.length_le (by simp)
        rw [get?_treeDownTo, if_neg longer]
      · rw [get?_treeDownTo, if_pos List.suffix_rfl]

/-- The root of a working copy whose path is almost as long as the system takes. -/
def deepRoot : Location :=
  List.replicate 15 (List.replicate 255 0x64)

/-- Its directory of shelves. -/
def deepPlace : Location :=
  Utf8.encode "shelves" :: Utf8.encode ".svn" :: deepRoot

/-- The last moment of the calendar, as the time of a file. -/
def lastMoment : FileTime := .ofInstant ⟨latestMicros, latest_inCalendar⟩

/-- A machine with one shelf in this directory, from the last moment of the calendar. -/
def deepMachine : Machine where
  tree := (treeDownTo deepPlace).put (patchAt deepPlace "a")
    (.file (Utf8.encode "+x\n") lastMoment)
  directory := []
  clock := .epoch
  programs := .empty

/-- A request for a shelf with a long name. -/
def deepRequest : CreateRequest :=
  ⟨List.replicate 249 (Glyph.char 'n'), [(Location.toPath deepRoot).toText], .infinity, [], true,
    false, none⟩

/-- The turn that is to make it. -/
def deepCreation : Turn :=
  ⟨.create deepRequest, plainPrograms (Utf8.encode "Index: a\n+x\n"), .epoch⟩

/-- The turn that lists the shelves. -/
def deepListing : Turn :=
  ⟨.list (Location.toPath deepRoot).toText, .empty, .epoch⟩

theorem shelvesPath_deepRoot :
    plainSettings.shelvesPath (Location.toPath deepRoot) = Location.toPath deepPlace := by
  rw [shelvesPath_eq, deepPlace, Location.toPath_cons, Location.toPath_cons]
  rfl

/-- The path of a patch file in that directory. -/
theorem child_deepPlace {name : Text} (kept : KeptName name) :
    (plainSettings.shelvesPath (Location.toPath deepRoot)).child (name ++ Shelf.patchSuffix) =
      Location.toPath (patchAt deepPlace name) := by
  rw [shelvesPath_deepRoot, patchAt, Location.toPath_cons, kept.decode isSuffix_patch]

theorem get?_deepMachine (location : Location) :
    deepMachine.tree.get? location =
      if location = patchAt deepPlace "a" then
        some (.file (Utf8.encode "+x\n") lastMoment)
      else if location <:+ deepPlace then some .directory else none := by
  rw [deepMachine, FileTree.get?_put _ _ _ _ (patchAt_ne_root _ _), get?_treeDownTo]

theorem get?_deepMachine_of_suffix {location : Location} (suffix : location <:+ deepPlace) :
    deepMachine.tree.get? location = some .directory := by
  have apart : location ≠ patchAt deepPlace "a" := by
    rintro rfl
    exact absurd suffix.length_le (by simp [patchAt])
  rw [get?_deepMachine, if_neg apart, if_pos suffix]

/-- The names of the directories, and how long they are together. -/
theorem names_deepPlace : (∀ name ∈ deepPlace, FileName.IsEntry name ∧ 0 ∉ name) ∧
    (Location.spelled deepPlace).length = 3853 := by
  decide +kernel

theorem sound_deepMachine : deepMachine.Sound := by
  have tree := sound_treeDownTo fun name member => (names_deepPlace.1 name member).1
  refine ⟨tree.put _ (by decide) (FileTree.noWay_of_none ?_) ?_, fun _ => rfl⟩
  · have longer : ¬ patchAt deepPlace "a" <:+ deepPlace := fun suffix =>
      absurd suffix.length_le (by simp [patchAt])
    exact (get?_treeDownTo _ _).trans (if_neg longer)
  · rw [get?_treeDownTo, if_pos List.suffix_rfl]

theorem fits_deepPlace : (Location.toPath deepPlace).Fits := by
  have below : deepPlace ≠ [] := List.cons_ne_nil _ _
  rw [Location.fits_toPath_iff below, names_deepPlace.2]
  exact ⟨fun name member => (names_deepPlace.1 name member).2, by decide⟩

theorem leads_deepPlace : deepMachine.tree.Leads (Location.toPath deepPlace) deepPlace :=
  sound_deepMachine.tree.leads_toPath (get?_deepMachine_of_suffix List.suffix_rfl) fits_deepPlace

theorem isRoot_deepRoot : IsRoot deepMachine.tree deepRoot := by
  have fits := fits_deepPlace
  rw [deepPlace, Location.toPath_cons] at fits
  have admin : Utf8.encode ".svn" :: deepRoot <:+ deepPlace := List.suffix_cons _ _
  have leads := sound_deepMachine.tree.leads_toPath (get?_deepMachine_of_suffix admin)
    (fits.of_child rfl)
  rw [Location.toPath_cons] at leads
  exact ⟨get?_deepMachine_of_suffix ((List.suffix_cons _ _).trans admin), _, leads⟩

/-- The directory of shelves holds one patch file. -/
theorem onlyShelfFiles_deepPlace :
    OnlyShelfFiles deepMachine.tree (plainSettings.shelvesPath (Location.toPath deepRoot))
      deepPlace := by
  have kept : KeptName "a" := ⟨rfl, rfl, by decide⟩
  have sole : ∀ fileName, deepMachine.tree.get? (fileName :: deepPlace) ≠ none →
      fileName :: deepPlace = patchAt deepPlace "a" := by
    intro fileName stands
    rw [get?_deepMachine] at stands
    split at stands
    · assumption
    · have longer : ¬ fileName :: deepPlace <:+ deepPlace := fun suffix =>
        absurd suffix.length_le (by simp)
      exact absurd (if_neg longer) stands
  refine ⟨shelvesPath_deepRoot ▸ leads_deepPlace, ?_, ?_, ?_⟩
  · intro fileName entry stands
    have only := sole fileName (by simp [stands])
    rw [get?_deepMachine, if_pos only] at stands
    obtain rfl := Option.some.inj stands
    rfl
  · intro fileName stands
    obtain rfl := (List.cons.inj (sole fileName stands)).1
    exact ⟨"a", rfl, .inl (kept.decode isSuffix_patch)⟩
  · intro name stands
    have same := (List.cons.inj (sole _ stands)).1
    have text : name ++ Shelf.patchSuffix = "a" ++ Shelf.patchSuffix :=
      (Utf8.eq_decodeEscaped_of_encode same (by decide +kernel)).trans
        (kept.decode isSuffix_patch)
    rw [text, child_deepPlace kept, Location.fits_toPath_iff (patchAt_ne_root _ _), patchAt,
      List.forall_mem_cons, Location.length_spelled_cons, names_deepPlace.2]
    exact ⟨⟨by decide, fun other member => (names_deepPlace.1 other member).2⟩, by decide⟩

/-- The name is as long as a name can be. -/
theorem allowedName_deep : AllowedName deepRequest.name ∧
    (Utf8.encode (deepRequest.name ++ Shelf.patchSuffix)).length = 255 ∧
    0 ∉ Utf8.encode (deepRequest.name ++ Shelf.patchSuffix) :=
  ⟨⟨by decide +kernel, by decide +kernel, by decide +kernel⟩, by decide +kernel, by decide +kernel⟩

theorem noNull_deep : ((plainSettings.shelvesPath (Location.toPath deepRoot)).child
    (deepRequest.name ++ Shelf.patchSuffix)).toText.holds '\x00' = false := by
  rw [child_deepPlace allowedName_deep.1.kept, Location.noNull_toPath_iff (patchAt_ne_root _ _),
    patchAt, List.forall_mem_cons]
  exact ⟨allowedName_deep.2.2, fun other member => (names_deepPlace.1 other member).2⟩

theorem long_deep : FileTree.longestPath < (Utf8.encode ((plainSettings.shelvesPath
    (Location.toPath deepRoot)).child (deepRequest.name ++ Shelf.patchSuffix)).toText).length := by
  rw [child_deepPlace allowedName_deep.1.kept, Location.encode_toPath (patchAt_ne_root _ _),
    patchAt, Location.length_spelled_cons, names_deepPlace.2, allowedName_deep.2.1]
  decide

/-- The shelf cannot be made, since the path of its patch would be too long. -/
theorem exists_turned_deepCreation :
    ∃ reason, plainSettings.turned deepCreation deepMachine =
      ⟨.error reason, deepCreation.start deepMachine, []⟩ := by
  have asked : deepCreation.call = .create deepRequest := rfl
  have targets : deepRequest.targets = [(Location.toPath deepRoot).toText] := rfl
  have found := findRoot_start sound_deepMachine isRoot_deepRoot deepCreation
  exact exists_turned_create_of_long asked targets found allowedName_deep.1.kept noNull_deep
    long_deep

theorem findRoot_deepListing :
    ((findRoot (Location.toPath deepRoot).toText).run
      (deepListing.start (deepCreation.start deepMachine))).result =
      .ok (Location.toPath deepRoot) := by
  have isRoot := isRoot_deepRoot
  rw [← Turn.tree_start deepCreation] at isRoot
  exact findRoot_start (deepCreation.sound_start sound_deepMachine) isRoot deepListing

/-- The shelves cannot be listed, since the time of a patch is read as a later moment. -/
theorem exists_turned_deepListing {shelves : SavedShelves} (holds : HoldsShelves deepMachine.tree
      (plainSettings.shelvesPath (Location.toPath deepRoot)) deepPlace shelves) :
    ∃ reason, plainSettings.turned deepListing (deepCreation.start deepMachine) =
      ⟨.error reason, deepListing.start (deepCreation.start deepMachine), []⟩ := by
  have asked : deepListing.call = .list (Location.toPath deepRoot).toText := rfl
  have stands := (get?_deepMachine (patchAt deepPlace "a")).trans (if_pos rfl)
  have late : lastMoment.read = .error (.yearOutOfRange 10000) := rfl
  rw [← Turn.tree_start deepCreation] at holds stands
  exact exists_turned_list_of_late asked findRoot_deepListing (isAbsolute_shelvesPath _ _) holds
    stands late

/-- On the map the shelf is made. -/
theorem succeeds_deepCreation {shelves : SavedShelves}
    (absent : shelves.contains deepRequest.name = false) :
    (plainSettings.verdict (Location.toPath deepRoot) deepCreation shelves).succeeds = true := by
  have heard : plainSettings.heard deepCreation.bare (Location.toPath deepRoot) "diff"
      (selection deepRequest) = some "Index: a\n+x\n" := by
    decide +kernel
  have asked : deepCreation.call = .create deepRequest := rfl
  rw [verdict, asked]
  simp only
  rw [heard, SavedShelves.create.eq_def, absent]
  rfl

/-- Beyond the limits of the system the store refuses what the map does: neither turn
agrees. -/
theorem refusals_beyond_limits :
    deepMachine.Sound ∧
      OnlyShelfFiles deepMachine.tree (plainSettings.shelvesPath (Location.toPath deepRoot))
        deepPlace ∧
      plainSettings.Throughout (plainSettings.Fair (Location.toPath deepRoot))
        [deepCreation, deepListing] deepMachine ∧
      ∀ shelves, Represents deepMachine.tree
          (plainSettings.shelvesPath (Location.toPath deepRoot)) shelves →
        List.Forall₂ (fun outcome verdict =>
            ¬ Agrees (plainSettings.shelvesPath (Location.toPath deepRoot)) outcome verdict)
          (plainSettings.outcomes [deepCreation, deepListing] deepMachine)
          (plainSettings.verdicts (Location.toPath deepRoot) [deepCreation, deepListing]
            shelves) := by
  obtain ⟨reason, created⟩ := exists_turned_deepCreation
  have only := onlyShelfFiles_deepPlace
  obtain ⟨why, listed⟩ :=
    exists_turned_deepListing (holdsShelves_savedIn only sound_deepMachine.tree)
  refine ⟨sound_deepMachine, only, ⟨?_, ?_, trivial⟩, ?_⟩
  · have named : ∀ name, some deepRequest.name = some name → AllowedName name := by
      intro name same
      obtain rfl := Option.some.inj same
      exact allowedName_deep.1
    refine ⟨⟨_, rfl, findRoot_start sound_deepMachine isRoot_deepRoot deepCreation⟩, named,
      nofun, ?_⟩
    rw [created]
    exact nofun
  · rw [created]
    refine ⟨⟨_, rfl, findRoot_deepListing⟩, nofun, nofun, ?_⟩
    rw [listed]
    exact nofun
  · intro shelves represents
    have absent : shelves.contains deepRequest.name = false := by
      refine Bool.eq_false_iff.2 fun known => ?_
      have fits := (represents.shelfName known).fits
      exact absurd fits.short (Nat.not_le.2 long_deep)
    rw [outcomes, created, outcomes, listed]
    exact .cons (not_agrees_of_error rfl (succeeds_deepCreation absent))
      (.cons (not_agrees_of_error rfl rfl) .nil)

end WorkingCopyStore

end PatchShelf
