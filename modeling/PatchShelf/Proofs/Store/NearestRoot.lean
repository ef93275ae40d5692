/-
Module: PatchShelf.Proofs.Store.NearestRoot
Purpose: Which root is found for a path, and when none is.
Main exports:
  WorkingCopyStore.HasArea, WorkingCopyStore.IsNearest, WorkingCopyStore.Halts,
  WorkingCopyStore.climbs_nearestRoot, WorkingCopyStore.Hindered,
  WorkingCopyStore.finds_findRoot, WorkingCopyStore.findRoot_exactly
-/
import PatchShelf.Proofs.Store.Refusals

/-!
The search for a root climbs from one directory to the one above it.  It ends at the first
that has an administrative area, at the top, or where the system refuses to tell because the
path to ask about is too long.  These three exclude each other, and so do the ways in which a
path leads to a root: it leads nowhere, it leads to where no directory above has an area, it
leads to where one has, or a question on the way is refused.
-/

namespace PatchShelf

namespace WorkingCopyStore

variable {tree : FileTree} {start location nearest : Location}

/-! ### Climbing -/

/-- The directory at a location has an administrative area. -/
def HasArea (tree : FileTree) (location : Location) : Prop :=
  ∃ admin, tree.Leads (adminPath location.toPath) admin

/-- No directory has an area on the way from the start up to a location, that one left out. -/
def Clear (tree : FileTree) (start location : Location) : Prop :=
  ∀ other, other <:+ start → location <:+ other → other ≠ location → ¬ HasArea tree other

/-- Of the start and the directories above it, this is the deepest one that has an area. -/
structure IsNearest (tree : FileTree) (start location : Location) : Prop where
  above : location <:+ start
  area : HasArea tree location
  clear : Clear tree start location

/-- The search from a start comes to a directory about whose area the system refuses to tell. -/
def Halts (tree : FileTree) (start : Location) : Prop :=
  ∃ location : Location, location <:+ start ∧ Refuses tree [] (adminPath location.toPath) ∧
    Clear tree start location

/-- Two locations above one start are above each other. -/
theorem IsNearest.unique {other : Location} (one : IsNearest tree start location)
    (two : IsNearest tree start other) : location = other := by
  refine Decidable.byContradiction fun apart => ?_
  rcases List.suffix_or_suffix_of_suffix one.above two.above with higher | higher
  · exact one.clear other two.above higher (Ne.symm apart) two.area
  · exact two.clear location one.above higher apart one.area

theorem clear_self (tree : FileTree) (start : Location) : Clear tree start start := by
  intro other above below apart
  exact absurd (above.eq_of_length_le below.length_le) apart

theorem clear_cons_iff {name : FileName} {above : Location} (higher : location <:+ above) :
    Clear tree (name :: above) location ↔
      ¬ HasArea tree (name :: above) ∧ Clear tree above location := by
  constructor
  · intro clear
    refine ⟨clear _ List.suffix_rfl (higher.trans (List.suffix_cons _ _)) ?_,
      fun other inside => clear other (inside.trans (List.suffix_cons _ _))⟩
    rintro rfl
    exact absurd higher.length_le (by simp)
  · rintro ⟨none, clear⟩ other inside below apart
    rcases List.suffix_cons_iff.1 inside with rfl | further
    · exact none
    · exact clear other further below apart

/-- The system tells of an area whether it is there, or refuses. -/
theorem area_cases (tree : FileTree) (location : Location) :
    (Refuses tree [] (adminPath location.toPath) ∧ ∃ fault,
        tree.isDirectory [] (adminPath location.toPath) = .error fault) ∨
      (HasArea tree location ∧ tree.isDirectory [] (adminPath location.toPath) = .ok true) ∨
      (¬ HasArea tree location ∧ ¬ Refuses tree [] (adminPath location.toPath) ∧
        tree.isDirectory [] (adminPath location.toPath) = .ok false) := by
  have area : tree.isDirectory [] (adminPath location.toPath) = .ok true ↔
      HasArea tree location := FileTree.isDirectory_iff [] rfl
  cases asked : tree.isDirectory [] (adminPath location.toPath) with
  | error fault =>
      refine .inl ⟨?_, fault, rfl⟩
      cases probed : tree.probe [] (adminPath location.toPath) with
      | error other => rw [Refuses, probed, FileTree.eq_of_probe_error probed]
      | ok entry =>
          rw [FileTree.isDirectory, probed] at asked
          cases asked
  | ok there =>
      rw [asked] at area
      cases there with
      | true => exact .inr (.inl ⟨area.1 rfl, rfl⟩)
      | false =>
          refine .inr (.inr ⟨fun there => Bool.false_ne_true (Except.ok.inj (area.2 there)),
            fun refuses => ?_, rfl⟩)
          rw [FileTree.isDirectory, refuses] at asked
          cases asked

theorem not_refuses_of_hasArea (area : HasArea tree location) :
    ¬ Refuses tree [] (adminPath location.toPath) := by
  obtain ⟨admin, leads⟩ := area
  intro refuses
  have probed := (FileTree.probe_eq_some_iff tree [] _ .directory).2 ⟨admin, leads⟩
  cases refuses.symm.trans probed

/-- How the search for a root ends. -/
inductive Climbs (tree : FileTree) (start : Location) : Except Fault (Option Location) → Prop
  | halts {fault : Fault} (refused : Halts tree start) : Climbs tree start (.error fault)
  | reaches {nearest : Location} (isNearest : IsNearest tree start nearest)
      (answered : ¬ Halts tree start) : Climbs tree start (.ok (some nearest))
  | misses (rootless : ∀ nearest, ¬ IsNearest tree start nearest)
      (answered : ¬ Halts tree start) : Climbs tree start (.ok none)

/-- A start with an area is its own root. -/
theorem climbs_of_hasArea (area : HasArea tree start) : Climbs tree start (.ok (some start)) := by
  refine .reaches ⟨List.suffix_rfl, area, clear_self tree start⟩ ?_
  rintro ⟨location, above, refuses, clear⟩
  by_cases same : start = location
  · subst same
    exact not_refuses_of_hasArea area refuses
  · exact clear start List.suffix_rfl above same area

/-- Behind a directory without an area, the search goes on with the one above it. -/
theorem climbs_cons {name : FileName} {above : Location}
    {result : Except Fault (Option Location)} (none : ¬ HasArea tree (name :: above))
    (answered : ¬ Refuses tree [] (adminPath (Location.toPath (name :: above))))
    (climbs : Climbs tree above result) : Climbs tree (name :: above) result := by
  have halts_iff : Halts tree (name :: above) ↔ Halts tree above := by
    constructor
    · rintro ⟨location, inside, refuses, clear⟩
      rcases List.suffix_cons_iff.1 inside with rfl | higher
      · exact absurd refuses answered
      · exact ⟨location, higher, refuses, ((clear_cons_iff higher).1 clear).2⟩
    · rintro ⟨location, higher, refuses, clear⟩
      exact ⟨location, higher.trans (List.suffix_cons _ _), refuses,
        (clear_cons_iff higher).2 ⟨none, clear⟩⟩
  have nearest_iff (location : Location) :
      IsNearest tree (name :: above) location ↔ IsNearest tree above location := by
    constructor
    · rintro ⟨inside, area, clear⟩
      rcases List.suffix_cons_iff.1 inside with rfl | higher
      · exact absurd area none
      · exact ⟨higher, area, ((clear_cons_iff higher).1 clear).2⟩
    · rintro ⟨higher, area, clear⟩
      exact ⟨higher.trans (List.suffix_cons _ _), area, (clear_cons_iff higher).2 ⟨none, clear⟩⟩
  cases climbs with
  | halts refused => exact .halts (halts_iff.2 refused)
  | reaches isNearest answered =>
      exact .reaches ((nearest_iff _).2 isNearest) fun halts => answered (halts_iff.1 halts)
  | misses rootless answered =>
      exact .misses (fun location isNearest => rootless location ((nearest_iff _).1 isNearest))
        fun halts => answered (halts_iff.1 halts)

theorem climbs_nearestRoot (tree : FileTree) (start : Location) :
    Climbs tree start (nearestRoot tree start) := by
  induction start with
  | nil =>
      rw [nearestRoot, join_adminName]
      obtain ⟨refuses, fault, asked⟩ | ⟨area, asked⟩ | ⟨bare, answered, asked⟩ := area_cases tree []
      · rw [asked]
        exact .halts ⟨[], List.suffix_rfl, refuses, clear_self tree []⟩
      · rw [asked]
        exact climbs_of_hasArea area
      · rw [asked]
        refine .misses ?_ ?_
        · rintro nearest ⟨above, area, -⟩
          obtain rfl := List.suffix_nil.1 above
          exact bare area
        · rintro ⟨location, above, refuses, -⟩
          obtain rfl := List.suffix_nil.1 above
          exact answered refuses
  | cons name above ih =>
      rw [nearestRoot, join_adminName]
      obtain ⟨refuses, fault, asked⟩ | ⟨area, asked⟩ | ⟨bare, answered, asked⟩ :=
        area_cases tree (name :: above)
      · rw [asked]
        exact .halts ⟨_, List.suffix_rfl, refuses, clear_self tree _⟩
      · rw [asked]
        exact climbs_of_hasArea area
      · rw [asked]
        exact climbs_cons bare answered ih

/-! ### Where the search starts -/

variable {machine : Machine} {path : Text} {entry : Entry}

/-- The path leads to the entry at this location, links followed. -/
def LeadsTo (machine : Machine) (path : Text) (location : Location) (entry : Entry) : Prop :=
  machine.tree.locate machine.directory .target (Path.ofText path) = .ok (.found location entry)

theorem LeadsTo.unique {other : Location} {another : Entry}
    (one : LeadsTo machine path location entry) (two : LeadsTo machine path other another) :
    location = other ∧ entry = another :=
  Spot.found.inj (Except.ok.inj (one.symm.trans two))

/-- The directory in which the search starts: the entry itself, or the one that it stands in. -/
def startFor (location : Location) (entry : Entry) : Location :=
  if entry.isDirectory then location else location.tail

/-- The system refuses something that has to be known to find a root: what the path leads to,
where the working directory is that it is read in, whether an entry on its way is a link, what
stands at the path of the location that it leads to, or whether a directory on the way up has an
area. -/
inductive Hindered (machine : Machine) (path : Text) : Prop
  | path (refuses : Refuses machine.tree machine.directory (Path.ofText path))
  | lost {location : Location} {entry : Entry} (leads : LeadsTo machine path location entry)
      (relative : (Path.ofText path).isAbsolute = false)
      (isLost : machine.directory.isLost = true)
  | misread {location : Location} {entry : Entry} (leads : LeadsTo machine path location entry)
      {shown : Path}
      (misread : machine.tree.misread? machine.directory (Path.ofText path) = some shown)
  | start {location : Location} {entry : Entry} (leads : LeadsTo machine path location entry)
      (refuses : Refuses machine.tree [] location.toPath)
  | way {location : Location} {entry : Entry} (leads : LeadsTo machine path location entry)
      (halts : Halts machine.tree (startFor location entry))

theorem noNull_of_stands {tree : FileTree} (sound : tree.Sound) (nullFree : tree.NullFree)
    {location : Location} (stands : tree.get? location ≠ none) : ∀ name ∈ location, 0 ∉ name := by
  induction location with
  | nil => exact fun _ inside => absurd inside List.not_mem_nil
  | cons first above ih =>
      have parent := sound.grounded first above stands
      intro name inside
      rcases List.mem_cons.1 inside with rfl | higher
      · exact nullFree name above stands
      · exact ih (by simp [parent]) name higher

/-- The path of a location is too long to be asked about, or leads to what stands there. -/
theorem probe_toPath (sound : tree.Sound) (nullFree : tree.NullFree)
    (stands : tree.get? location = some entry) (noLink : entry.isLink = false) :
    Refuses tree [] location.toPath ∨ tree.probe [] location.toPath = .ok (some entry) := by
  by_cases fits : location.toPath.Fits
  · exact .inr ((FileTree.probe_eq_some_iff _ _ _ _).2
      ⟨location, sound.locate_toPath stands noLink fits⟩)
  · have below : location ≠ [] := by
      rintro rfl
      exact fits ⟨by decide, by decide⟩
    have noNull : location.toPath.toText.holds '\x00' = false :=
      (Location.noNull_toPath_iff below).2 (noNull_of_stands sound nullFree (by simp [stands]))
    have long : FileTree.longestPath < (Utf8.encode location.toPath.toText).length :=
      Nat.lt_of_not_le fun short => fits ⟨noNull, short⟩
    have refused := FileTree.isPresent_of_long tree [] noNull long
    refine .inl ?_
    cases probed : tree.probe [] location.toPath with
    | error fault => rw [Refuses, probed, FileTree.eq_of_probe_error probed]
    | ok found =>
        rw [FileTree.isPresent, probed] at refused
        cases refused

/-! ### Finding a root -/

/-- How finding a root ends. -/
inductive FindsRoot (machine : Machine) (path : Text) : Except Stop Path → Prop
  | hindered {fault : Fault} (hindered : Hindered machine path) :
      FindsRoot machine path (.error (.fault fault))
  | nowhere {message : Text} (clear : ¬ Hindered machine path)
      (nowhere : ∀ location entry, ¬ LeadsTo machine path location entry) :
      FindsRoot machine path (.error (.failure (ShelfStore.failure message)))
  | rootless {message : Text} {location : Location} {entry : Entry}
      (clear : ¬ Hindered machine path) (leads : LeadsTo machine path location entry)
      (rootless : ∀ nearest, ¬ IsNearest machine.tree (startFor location entry) nearest) :
      FindsRoot machine path (.error (.failure (ShelfStore.failure message)))
  | found {location nearest : Location} {entry : Entry} (clear : ¬ Hindered machine path)
      (leads : LeadsTo machine path location entry)
      (isNearest : IsNearest machine.tree (startFor location entry) nearest) :
      FindsRoot machine path (.ok nearest.toPath)

/-- Nothing hinders the search where the path leads on and is read as it leads, its target can be
asked about, and the way up is not refused. -/
theorem LeadsTo.not_hindered (leads : LeadsTo machine path location entry)
    (here : machine.directory.isLost = false ∨ (Path.ofText path).isAbsolute = true)
    (read : machine.tree.misread? machine.directory (Path.ofText path) = none)
    (asked : machine.tree.probe [] location.toPath = .ok (some entry))
    (answered : ¬ Halts machine.tree (startFor location entry)) : ¬ Hindered machine path := by
  have probed : machine.tree.probe machine.directory (Path.ofText path) = .ok (some entry) :=
    (FileTree.probe_eq_some_iff _ _ _ _).2 ⟨location, leads⟩
  intro hindered
  cases hindered with
  | path refuses => cases refuses.symm.trans probed
  | lost _ relative isLost =>
      rcases here with stays | absolute
      · cases stays.symm.trans isLost
      · cases absolute.symm.trans relative
  | misread _ misread => cases read.symm.trans misread
  | start others refuses =>
      obtain ⟨rfl, rfl⟩ := leads.unique others
      cases refuses.symm.trans asked
  | way others halts =>
      obtain ⟨rfl, rfl⟩ := leads.unique others
      exact answered halts

/-- Where a path leads, a root is found from there unless the system refuses. -/
theorem finds_of_leadsTo (sound : machine.Sound) (nullFree : machine.tree.NullFree)
    (leads : LeadsTo machine path location entry) :
    FindsRoot machine path ((findRoot path).run machine).result := by
  have probed : machine.tree.probe machine.directory (Path.ofText path) = .ok (some entry) :=
    (FileTree.probe_eq_some_iff _ _ _ _).2 ⟨location, leads⟩
  have present : machine.tree.isPresent machine.directory (Path.ofText path) = .ok true := by
    rw [FileTree.isPresent, probed]
    rfl
  rw [result_findRoot, present]
  by_cases here : machine.directory.isLost = false ∨ (Path.ofText path).isAbsolute = true
  · obtain ⟨stands, noLink⟩ := sound.tree.stands_of_locate sound.standing here leads
    have stays : ¬ (machine.directory.isLost && !(Path.ofText path).isAbsolute) = true := by
      rcases here with here | here <;> simp [here]
    cases read : machine.tree.misread? machine.directory (Path.ofText path) with
    | some shown =>
        have refused : machine.tree.resolve machine.directory (Path.ofText path) =
            .error (.system .nameTooLong shown.toText) := by
          rw [FileTree.resolve, if_neg stays, read]
        simp only [refused]
        exact .hindered (.misread leads read)
    | none =>
        have resolved : machine.tree.resolve machine.directory (Path.ofText path) =
            .ok location := by
          rw [FileTree.resolve, if_neg stays, read, leads]
        simp only [resolved]
        obtain refuses | asked := probe_toPath sound.tree nullFree stands noLink
        · have unasked : machine.tree.isDirectory [] location.toPath =
              .error (.system .nameTooLong location.toPath.toText) := by
            rw [FileTree.isDirectory, refuses]
            rfl
          simp only [unasked]
          exact .hindered (.start leads refuses)
        · have inside : machine.tree.isDirectory [] location.toPath = .ok entry.isDirectory := by
            rw [FileTree.isDirectory, asked]
            rfl
          simp only [inside]
          have climbs := climbs_nearestRoot machine.tree (startFor location entry)
          have start : (if entry.isDirectory = true then location else location.tail) =
              startFor location entry := rfl
          rw [start]
          generalize nearestRoot machine.tree (startFor location entry) = outcome at climbs ⊢
          cases climbs with
          | halts refused => exact .hindered (.way leads refused)
          | reaches isNearest answered =>
              exact .found (leads.not_hindered here read asked answered) leads isNearest
          | misses rootless answered =>
              exact .rootless (leads.not_hindered here read asked answered) leads rootless
  · obtain ⟨lost, relative⟩ := not_or.1 here
    have lost : machine.directory.isLost = true := by simpa using lost
    have relative : (Path.ofText path).isAbsolute = false := by simpa using relative
    have refused : machine.tree.resolve machine.directory (Path.ofText path) =
        .error .lostDirectory := by
      rw [FileTree.resolve, if_pos (by simp [lost, relative])]
    simp only [refused]
    exact .hindered (.lost leads relative lost)

theorem finds_findRoot (sound : machine.Sound) (nullFree : machine.tree.NullFree) (path : Text) :
    FindsRoot machine path ((findRoot path).run machine).result := by
  cases probed : machine.tree.probe machine.directory (Path.ofText path) with
  | error fault =>
      have refuses : Refuses machine.tree machine.directory (Path.ofText path) := by
        rw [Refuses, probed, FileTree.eq_of_probe_error probed]
      rw [result_findRoot, FileTree.isPresent, probed]
      exact .hindered (.path refuses)
  | ok found =>
      cases found with
      | some entry =>
          obtain ⟨location, leads⟩ := (FileTree.probe_eq_some_iff _ _ _ entry).1 probed
          exact finds_of_leadsTo sound nullFree leads
      | none =>
          have nowhere (location : Location) (entry : Entry) :
              ¬ LeadsTo machine path location entry := by
            intro leads
            cases probed.symm.trans ((FileTree.probe_eq_some_iff _ _ _ entry).2 ⟨location, leads⟩)
          rw [result_findRoot, FileTree.isPresent, probed]
          refine .nowhere ?_ nowhere
          intro hindered
          cases hindered with
          | path refuses => cases refuses.symm.trans probed
          | lost leads | misread leads | start leads | way leads => exact nowhere _ _ leads

/-- A root is found exactly if nothing is refused and the path leads to where a directory above
has an area; it is then the nearest one.  The store fails exactly if nothing is refused and there
is no such directory.  Another error comes out exactly if something is refused, and then a name is
too long or the working directory is lost.  A root that was found is found again from its own path,
wherever one stands. -/
theorem findRoot_exactly (sound : machine.Sound) (nullFree : machine.tree.NullFree)
    (path : Text) :
    let result := ((findRoot path).run machine).result
    (∀ root, result = .ok root ↔ ¬ Hindered machine path ∧ ∃ location entry nearest,
        LeadsTo machine path location entry ∧
          IsNearest machine.tree (startFor location entry) nearest ∧ root = nearest.toPath) ∧
      ((∃ message, result = .error (.failure (ShelfStore.failure message))) ↔
        ¬ Hindered machine path ∧ ∀ location entry, LeadsTo machine path location entry →
          ∀ nearest, ¬ IsNearest machine.tree (startFor location entry) nearest) ∧
      ((∃ fault, result = .error (.fault fault)) ↔ Hindered machine path) ∧
      (∀ fault, result = .error (.fault fault) →
        IsLongName (.fault fault) ∨ IsLost machine path (.fault fault)) ∧
      ∀ root, result = .ok root → ∀ other : Machine, other.tree = machine.tree →
        ((findRoot root.toText).run other).result = .ok root := by
  intro result
  have again : ∀ root, result = .ok root → ∀ other : Machine, other.tree = machine.tree →
      ((findRoot root.toText).run other).result = .ok root := by
    intro root found other same
    obtain ⟨location, rfl, isRoot⟩ := isRoot_of_findRoot sound found
    rw [← same] at isRoot
    exact findRoot_of_isRoot (same ▸ sound.tree) isRoot
  have told : ∀ fault, result = .error (.fault fault) →
      IsLongName (.fault fault) ∨ IsLost machine path (.fault fault) := by
    intro fault stopped
    -- The shelf for whose sake it is asked makes no difference here, nor do the settings.
    have refused := stops_findRoot plainSettings path none _ stopped
    exact (refused.resolve_left nofun).imp_left LongPath.isLongName
  have finds : FindsRoot machine path result := finds_findRoot sound nullFree path
  generalize result = outcome at again told finds ⊢
  cases finds with
  | hindered hindered =>
      exact ⟨fun root => iff_of_false nofun fun found => found.1 hindered,
        iff_of_false nofun fun failed => failed.1 hindered, iff_of_true ⟨_, rfl⟩ hindered, told,
        again⟩
  | nowhere clear nowhere =>
      refine ⟨fun root => iff_of_false nofun ?_, iff_of_true ⟨_, rfl⟩ ⟨clear, ?_⟩,
        iff_of_false nofun clear, told, again⟩
      · rintro ⟨-, location, entry, nearest, leads, -⟩
        exact nowhere location entry leads
      · exact fun location entry leads => absurd leads (nowhere location entry)
  | rootless clear leads rootless =>
      refine ⟨fun root => iff_of_false nofun ?_, iff_of_true ⟨_, rfl⟩ ⟨clear, ?_⟩,
        iff_of_false nofun clear, told, again⟩
      · rintro ⟨-, location, entry, nearest, others, isNearest, -⟩
        obtain ⟨rfl, rfl⟩ := leads.unique others
        exact rootless nearest isNearest
      · intro location entry others
        obtain ⟨rfl, rfl⟩ := leads.unique others
        exact rootless
  | found clear leads isNearest =>
      refine ⟨fun root => ⟨?_, ?_⟩, iff_of_false nofun ?_, iff_of_false nofun clear, told, again⟩
      · intro same
        obtain rfl := Except.ok.inj same
        exact ⟨clear, _, _, _, leads, isNearest, rfl⟩
      · rintro ⟨-, location, entry, nearest, others, isToo, rfl⟩
        obtain ⟨rfl, rfl⟩ := leads.unique others
        rw [isNearest.unique isToo]
      · rintro ⟨-, none⟩
        exact none _ _ leads _ isNearest

/-- A machine with a working copy inside another, a file in the place of an area, a link into the
inner one, and a link to a name that is too long. -/
def nestedRootsMachine : Machine :=
  let more : List (Text × Entry) :=
    [("/wc/sub", .directory), ("/wc/sub/.svn", .directory), ("/wc/sub/deep", .directory),
      ("/wc/sub/deep/.svn", .file [] .epoch), ("/wc/way", .link (Utf8.encode "sub/deep")),
      ("/wc/far", .link (List.replicate 256 0x61))]
  { plainMachine [] with
    tree := more.foldl (fun tree entry => tree.put (Location.ofPath (Path.ofText entry.1)) entry.2)
      (plainMachine []).tree }

theorem findRoot_exactly_nested :
    (((findRoot "/wc/way").run nestedRootsMachine).result = .ok ⟨.root, ["wc", "sub"]⟩ ∧
      ¬ Hindered nestedRootsMachine "/wc/way" ∧
      ((findRoot "/wc/sub").run nestedRootsMachine).result = .ok ⟨.root, ["wc", "sub"]⟩) ∧
      Hindered nestedRootsMachine "/wc/far" := by
  have standing : nestedRootsMachine.tree.get? nestedRootsMachine.directory = some .directory := by
    decide +kernel
  have sound : nestedRootsMachine.Sound := ⟨by decide +kernel, fun _ => standing⟩
  have clean : ∀ location ∈ nestedRootsMachine.tree.entries.keys, ∀ name ∈ location, 0 ∉ name := by
    decide +kernel
  have nullFree := FileTree.nullFree_of_entries clean
  have found :
      ((findRoot "/wc/way").run nestedRootsMachine).result = .ok ⟨.root, ["wc", "sub"]⟩ := by
    decide +kernel
  have refused : ((findRoot "/wc/far").run nestedRootsMachine).result =
      .error (.fault (.system .nameTooLong "/wc/far")) := by decide +kernel
  obtain ⟨roots, -, -, -, again⟩ := findRoot_exactly sound nullFree "/wc/way"
  obtain ⟨-, -, hindered, -⟩ := findRoot_exactly sound nullFree "/wc/far"
  exact ⟨⟨found, ((roots _).1 found).1, again _ found nestedRootsMachine rfl⟩,
    hindered.1 ⟨_, refused⟩⟩

end WorkingCopyStore

end PatchShelf
