/-
Module: PatchShelf.Proofs.Store.Root
Purpose: The root of the working copy that a path lies in.
Main exports:
  Machine.Sound, WorkingCopyStore.reads_findRoot, WorkingCopyStore.IsRoot,
  WorkingCopyStore.isRoot_of_findRoot, WorkingCopyStore.findRoot_of_isRoot,
  WorkingCopyStore.isPart_of_mem_shelvesPath, WorkingCopyStore.isEntryName_of_mem_shelvesPath
-/
import PatchShelf.Proofs.Store.ShelfFiles

/-!
Finding a root only looks at the files.  What is found is a directory of the tree, by
its own path, and has an administrative area.
-/

namespace PatchShelf

/-- The tree of the machine is sound, and the working directory stands unless it is
lost. -/
structure Machine.Sound (machine : Machine) : Prop where
  tree : machine.tree.Sound
  standing : machine.directory.isLost = false →
    machine.tree.get? machine.directory = some .directory

/-- A location that is marked stands, unless some of it is lost. -/
theorem FileTree.get?_markLost (tree : FileTree) (location : Location)
    (stands : (tree.markLost location).isLost = false) :
    tree.get? (tree.markLost location) = some .directory := by
  cases location with
  | nil => rfl
  | cons name above =>
      rw [markLost] at stands ⊢
      split
      · rename_i there
        cases found : tree.get? (name :: tree.markLost above) with
        | none =>
            rw [found] at there
            cases there
        | some entry =>
            rw [found] at there
            cases entry with
            | directory => rfl
            | file content modified => cases there
            | link target => cases there
      · rename_i gone
        rw [if_neg gone] at stands
        simp [Location.isLost] at stands

namespace Machine.Sound

variable {machine : Machine}

theorem withTree (sound : machine.Sound) {tree : FileTree} (valid : tree.Sound)
    (keeps : FileTree.KeepsWays machine.tree tree) : (machine.withTree tree).Sound :=
  ⟨valid, fun here => keeps _ _ (sound.standing here) rfl⟩

theorem afterCall (machine : Machine) (program : Text)
    (valid : (machine.afterCall program).tree.Sound) : (machine.afterCall program).Sound :=
  ⟨valid, FileTree.get?_markLost _ _⟩

end Machine.Sound

namespace WorkingCopyStore

open FileTree (IsEntryName)

/-- The administrative area of a working copy. -/
def adminPath (root : Path) : Path :=
  root.child adminName

theorem ofText_adminName : Path.ofText adminName = ⟨.relative, [adminName]⟩ := by
  decide

theorem isEntryName_adminName : IsEntryName adminName :=
  ⟨by decide, by decide, by decide⟩

theorem join_adminName (root : Path) : root / Path.ofText adminName = adminPath root := by
  rw [ofText_adminName]
  rfl

/-- A location is the root of a working copy: a directory with an administrative area. -/
structure IsRoot (tree : FileTree) (location : Location) : Prop where
  stands : tree.get? location = some .directory
  area : ∃ admin, tree.Leads (adminPath location.toPath) admin

theorem isDirectory_of_nearestRoot {tree : FileTree} {start found : Location}
    (nearest : nearestRoot tree start = .ok (some found)) :
    found <:+ start ∧ tree.isDirectory [] (adminPath (Location.toPath found)) = .ok true := by
  induction start with
  | nil =>
      rw [nearestRoot, join_adminName] at nearest
      cases answered : tree.isDirectory [] (adminPath (Location.toPath [])) with
      | error fault =>
          rw [answered] at nearest
          cases nearest
      | ok there =>
          rw [answered] at nearest
          cases there with
          | false => cases nearest
          | true =>
              obtain rfl := Option.some.inj (Except.ok.inj nearest)
              exact ⟨List.suffix_rfl, answered⟩
  | cons name above ih =>
      rw [nearestRoot, join_adminName] at nearest
      cases answered : tree.isDirectory [] (adminPath (Location.toPath (name :: above))) with
      | error fault =>
          rw [answered] at nearest
          cases nearest
      | ok there =>
          rw [answered] at nearest
          cases there with
          | false =>
              obtain ⟨higher, area⟩ := ih nearest
              exact ⟨List.suffix_cons_iff.2 (.inr higher), area⟩
          | true =>
              obtain rfl := Option.some.inj (Except.ok.inj nearest)
              exact ⟨List.suffix_rfl, answered⟩

theorem reads_findRoot (path : Text) : Effect.Reads (findRoot path) := by
  refine .bind (Machine.reads_access _) fun present => ?_
  cases present with
  | false => exact .fail _
  | true =>
      refine .bind (Machine.reads_access _) fun location => ?_
      refine .bind (Machine.reads_access _) fun inside => ?_
      refine .bind (Machine.reads_access _) fun root => ?_
      cases root with
      | none => exact .fail _
      | some found => exact .pure _

/-- The run of the search, question by question. -/
theorem result_findRoot (machine : Machine) (path : Text) :
    ((findRoot path).run machine).result =
      match machine.tree.isPresent machine.directory (Path.ofText path) with
      | .error fault => .error (.fault fault)
      | .ok false =>
        .error (.failure (ShelfStore.failure ("The path '" ++ path ++ "' does not exist")))
      | .ok true =>
        match machine.tree.resolve machine.directory (Path.ofText path) with
        | .error fault => .error (.fault fault)
        | .ok location =>
          match machine.tree.isDirectory [] (Location.toPath location) with
          | .error fault => .error (.fault fault)
          | .ok inside =>
            match nearestRoot machine.tree (if inside then location else location.tail) with
            | .error fault => .error (.fault fault)
            | .ok none =>
              .error (.failure (ShelfStore.failure ("'" ++ path ++ "' is not a working copy")))
            | .ok (some nearest) => .ok (Location.toPath nearest) := by
  rw [findRoot, (Machine.reads_access _).run_bind, Machine.run_access]
  cases machine.tree.isPresent machine.directory (Path.ofText path) with
  | error fault => rfl
  | ok there =>
      cases there with
      | false => rfl
      | true =>
          simp only [mapError_ok, if_true]
          rw [(Machine.reads_access _).run_bind, Machine.run_access]
          cases machine.tree.resolve machine.directory (Path.ofText path) with
          | error fault => rfl
          | ok location =>
              simp only [mapError_ok]
              rw [(Machine.reads_access _).run_bind, Machine.run_access]
              cases machine.tree.isDirectory [] (Location.toPath location) with
              | error fault => rfl
              | ok inside =>
                  simp only [mapError_ok]
                  rw [(Machine.reads_access _).run_bind, Machine.run_access]
                  cases nearestRoot machine.tree (if inside then location else location.tail) with
                  | error fault => rfl
                  | ok nearest =>
                      cases nearest with
                      | none => rfl
                      | some found => rfl

/-- The location in which the search for a root starts, and the root that is nearest. -/
theorem exists_of_findRoot {machine : Machine} {path : Text} {root : Path}
    (found : ((findRoot path).run machine).result = .ok root) :
    ∃ location inside nearest,
      machine.tree.resolve machine.directory (Path.ofText path) = .ok location ∧
      machine.tree.isDirectory [] (Location.toPath location) = .ok inside ∧
      nearestRoot machine.tree (if inside then location else location.tail) =
        .ok (some nearest) ∧
      root = Location.toPath nearest := by
  rw [result_findRoot] at found
  split at found
  · cases found
  · cases found
  · split at found
    · cases found
    · rename_i location resolved
      split at found
      · cases found
      · rename_i inside asked
        split at found
        · cases found
        · cases found
        · rename_i nearest searched
          exact ⟨location, inside, nearest, resolved, asked, searched, (Except.ok.inj found).symm⟩

/-- Which root is found depends on the files and the working directory only. -/
theorem result_findRoot_eq {one two : Machine} (tree : one.tree = two.tree)
    (directory : one.directory = two.directory) (path : Text) :
    ((findRoot path).run one).result = ((findRoot path).run two).result := by
  rw [result_findRoot, result_findRoot, tree, directory]

/-- What is found is the root of a working copy. -/
theorem isRoot_of_findRoot {machine : Machine} (sound : machine.Sound) {path : Text}
    {root : Path} (found : ((findRoot path).run machine).result = .ok root) :
    ∃ location, root = Location.toPath location ∧ IsRoot machine.tree location := by
  obtain ⟨location, inside, nearest, resolved, asked, searched, rfl⟩ := exists_of_findRoot found
  obtain ⟨entry, stands, noLink⟩ := sound.tree.exists_of_resolve sound.standing resolved
  obtain ⟨suffix, area⟩ := isDirectory_of_nearestRoot searched
  have start : machine.tree.get? (if inside then location else location.tail) =
      some .directory := by
    cases inside with
    | false =>
        cases location with
        | nil => rfl
        | cons name above => exact sound.tree.grounded name above (by simp [stands])
    | true =>
        -- The path of the location leads to what stands there, so that is a directory.
        obtain ⟨place, leads⟩ := (FileTree.isDirectory_iff [] rfl).1 asked
        have located := sound.tree.locate_toPath stands noLink (FileTree.fits_of_locate rfl leads).1
        rw [FileTree.Leads, located] at leads
        obtain ⟨-, rfl⟩ := Spot.found.inj (Except.ok.inj leads)
        exact stands
  exact ⟨nearest, rfl, sound.tree.get?_of_suffix start suffix,
    (FileTree.isDirectory_iff [] rfl).1 area⟩

/-- A name that an entry can have is read as a component. -/
theorem isPart_decodeEscaped {name : FileName} (entry : name.IsEntry) :
    Path.IsPart (Utf8.decodeEscaped name) := by
  have back := Utf8.encode_decodeEscaped name
  have moves := entry.moves
  rw [FileTree.staysHere, Bool.or_eq_false_iff] at moves
  refine ⟨fun empty => ?_, fun here => ?_, (FileTree.isEntryName_decodeEscaped entry).whole⟩
  · rw [empty] at back
    rw [← back] at moves
    exact absurd moves.1 (by decide)
  · rw [here] at back
    rw [← back] at moves
    exact absurd moves.2 (by decide)

/-- The names on the way to what stands in a tree are read as components. -/
theorem isPart_of_mem_toPath {tree : FileTree} (sound : tree.Sound) {location : Location}
    (stands : tree.get? location ≠ none) : ∀ part ∈ location.toPath.parts, Path.IsPart part := by
  intro part member
  obtain ⟨name, inside, rfl⟩ := List.mem_map.1 member
  exact isPart_decodeEscaped (sound.isEntry_of_mem stands name (List.mem_reverse.1 inside))

/-- A directory that stands is not lost, however it is named. -/
theorem isLost_ofPath_toPath {tree : FileTree} (sound : tree.Sound) {location : Location}
    (stands : tree.get? location ≠ none) : (Location.ofPath location.toPath).isLost = false := by
  rw [Location.isLost, ← Bool.not_eq_true, List.contains_iff_mem]
  intro member
  obtain ⟨part, inside, empty⟩ := List.mem_map.1 member
  have isPart := isPart_of_mem_toPath sound stands part (List.mem_reverse.1 inside)
  exact Utf8.encode_ne_nil isPart.nonempty empty

/-- The root of a working copy is found from its own path. -/
theorem findRoot_of_isRoot {machine : Machine} (sound : machine.tree.Sound) {location : Location}
    (isRoot : IsRoot machine.tree location) :
    ((findRoot location.toPath.toText).run machine).result = .ok location.toPath := by
  obtain ⟨admin, area⟩ := isRoot.area
  have fits : location.toPath.Fits := (FileTree.fits_of_locate rfl area).1.of_child rfl
  have leads := sound.leads_toPath isRoot.stands fits
  have located (base : Location) : machine.tree.locate base .target location.toPath =
      .ok (.found location .directory) := by
    rw [FileTree.locate_base machine.tree base .target rfl]
    exact leads
  have stands : machine.tree.get? location ≠ none := by simp [isRoot.stands]
  have valid := isPart_of_mem_toPath sound stands
  have read : Path.ofText location.toPath.toText = location.toPath := Path.ofText_toText rfl valid
  have probed (base : Location) : machine.tree.probe base location.toPath =
      .ok (some .directory) := by
    rw [FileTree.probe, located]
  have present : machine.tree.isPresent machine.directory location.toPath = .ok true := by
    rw [FileTree.isPresent, probed]
    rfl
  have resolved : machine.tree.resolve machine.directory location.toPath = .ok location := by
    rw [FileTree.resolve, if_neg (by simp), sound.misread?_toPath isRoot.stands, located]
  have inside : machine.tree.isDirectory [] location.toPath = .ok true := by
    rw [FileTree.isDirectory, probed]
    rfl
  have there := (FileTree.isDirectory_iff [] rfl).2 ⟨admin, area⟩
  -- The search ends where it starts, at the administrative area beside it.
  have nearest : nearestRoot machine.tree location = .ok (some location) := by
    cases location with
    | nil =>
        rw [nearestRoot, join_adminName, there]
        rfl
    | cons name above =>
        rw [nearestRoot, join_adminName, there]
        rfl
  rw [result_findRoot, read, present]
  simp only [resolved, inside, if_true, nearest]

/-! ### The directory of shelves -/

theorem shelvesPath_eq (settings : WorkingCopyStore) (root : Path) :
    settings.shelvesPath root = adminPath root / Path.ofText settings.shelvesDirectory := by
  rw [shelvesPath, join_adminName]

theorem isAbsolute_shelvesPath (settings : WorkingCopyStore) (location : Location) :
    (settings.shelvesPath (Location.toPath location)).isAbsolute = true := by
  rw [shelvesPath_eq]
  exact Path.isAbsolute_join rfl _

theorem isAbsolute_of_findRoot (settings : WorkingCopyStore) {machine : Machine}
    (sound : machine.Sound) {path : Text} {root : Path}
    (found : ((findRoot path).run machine).result = .ok root) :
    (settings.shelvesPath root).isAbsolute = true := by
  obtain ⟨location, rfl, -⟩ := isRoot_of_findRoot sound found
  exact isAbsolute_shelvesPath settings location

/-- Where the components of the path of the directory of shelves come from. -/
theorem mem_shelvesPath_cases {settings : WorkingCopyStore} {location : Location} {part : Text}
    (member : part ∈ (settings.shelvesPath (Location.toPath location)).parts) :
    part ∈ (Path.ofText settings.shelvesDirectory).parts ∨ part ∈ location.toPath.parts ∨
      part = adminName := by
  rw [shelvesPath_eq] at member
  rcases Path.mem_of_mem_join member with above | below
  · rcases List.mem_append.1 above with higher | admin
    · exact .inr (.inl higher)
    · exact .inr (.inr (List.mem_singleton.1 admin))
  · exact .inl below

/-- The path of the directory of shelves is read back from its text. -/
theorem isPart_of_mem_shelvesPath {settings : WorkingCopyStore} {tree : FileTree}
    {location : Location} (sound : tree.Sound) (root : IsRoot tree location) :
    ∀ part ∈ (settings.shelvesPath (Location.toPath location)).parts, Path.IsPart part := by
  intro part member
  have stands : tree.get? location ≠ none := by simp [root.stands]
  rcases mem_shelvesPath_cases member with own | higher | rfl
  · exact Path.isPart_of_mem_ofText own
  · exact isPart_of_mem_toPath sound stands part higher
  · exact ⟨by decide, by decide, by decide⟩

/-- No component of the path of the directory of shelves leads upwards, unless the
settings name one that does. -/
theorem isEntryName_of_mem_shelvesPath {settings : WorkingCopyStore} {tree : FileTree}
    {location : Location} (sound : tree.Sound) (root : IsRoot tree location)
    (inside : Path.up ∉ (Path.ofText settings.shelvesDirectory).parts) :
    ∀ part ∈ (settings.shelvesPath (Location.toPath location)).parts, IsEntryName part := by
  intro part member
  have stands : tree.get? location ≠ none := by simp [root.stands]
  rcases mem_shelvesPath_cases member with own | higher | rfl
  · refine FileTree.isEntryName_of_isPart (Path.isPart_of_mem_ofText own) ?_
    rintro rfl
    exact inside own
  · obtain ⟨name, inLocation, rfl⟩ := List.mem_map.1 higher
    exact FileTree.isEntryName_decodeEscaped
      (sound.isEntry_of_mem stands name (List.mem_reverse.1 inLocation))
  · exact isEntryName_adminName

end WorkingCopyStore

end PatchShelf
