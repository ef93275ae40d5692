/-
Module: PatchShelf.Proofs.FileTree.Access
Purpose: What reading and changing a file tree by path comes to.
Main exports:
  FileTree.isDirectory_iff, FileTree.isPresent_of_long, FileTree.mem_names_iff, FileTree.Grown,
  FileTree.exists_of_makeDirectory, FileTree.exists_locate_of_write, FileTree.write_child,
  FileTree.read_child, FileTree.unlink_child
-/
import PatchShelf.FileTree.Access
import PatchShelf.Proofs.FileTree.Locate

/-!
Operations by path act on one location: the one that the path leads to.  Below a
directory that a path leads to, this is the entry of the last name, as long as no
link bears that name.  A tree grows when directories appear where nothing stood.
-/

namespace PatchShelf

namespace FileTree

/-! ### Questions about the kind of an entry -/

/-- A probe finds what the path leads to. -/
theorem probe_eq_some_iff (tree : FileTree) (base : Location) (path : Path) (entry : Entry) :
    tree.probe base path = .ok (some entry) ↔
      ∃ place, tree.locate base .target path = .ok (.found place entry) := by
  rw [probe]
  split
  · rename_i place there located
    simp [located]
  · rename_i located
    simp [located]
  · rename_i errno shown located
    rw [located]
    split <;> simp
  · rename_i fault located other
    simp [other]

/-- An absolute path is a directory if it leads to a place. -/
theorem isDirectory_iff {tree : FileTree} (base : Location) {path : Path}
    (absolute : path.isAbsolute = true) :
    tree.isDirectory base path = .ok true ↔ ∃ place, tree.Leads path place := by
  simp only [Leads, ← locate_base tree base .target absolute, ← probe_eq_some_iff]
  rw [isDirectory]
  cases tree.probe base path with
  | error fault => simp [Except.map]
  | ok found =>
      cases found with
      | none => simp [Except.map]
      | some entry => cases entry <;> simp [Except.map, Entry.isDirectory]

/-- A path to a file leads to one. -/
theorem exists_of_isFile {tree : FileTree} {base : Location} {path : Path}
    (found : tree.isFile base path = .ok true) :
    ∃ location content modified,
      tree.locate base .target path = .ok (.found location (.file content modified)) := by
  rw [isFile] at found
  cases probed : tree.probe base path with
  | error fault =>
      rw [probed] at found
      cases found
  | ok entry =>
      rw [probed] at found
      cases entry with
      | none => cases found
      | some entry =>
          obtain ⟨place, located⟩ := (probe_eq_some_iff tree base path entry).1 probed
          cases entry with
          | directory => cases found
          | file content modified => exact ⟨place, content, modified, located⟩
          | link target => cases found

/-- A path that leads to a file fits. -/
theorem fits_of_isFile {tree : FileTree} {base : Location} {path : Path}
    (found : tree.isFile base path = .ok true) : path.Fits := by
  obtain ⟨location, content, modified, located⟩ := exists_of_isFile found
  exact (walk_of_locate located).1

/-- A walk to a target is refused for a name that is too long, or because it leads nowhere. -/
theorem errno_of_advance {tree : FileTree} {directory : Location} {names : List FileName}
    {errno : Errno} (refused : tree.advance .target directory names = .error errno) :
    errno.leadsNowhere = true ∨ errno = .nameTooLong := by
  generalize aimed : WalkAim.target = targeted at refused
  fun_induction tree.advance targeted directory names with
  | case1 => cases refused
  | case2 directory name names stays ih => exact ih refused
  | case3 directory names moves ih => exact ih refused
  | case4 directory name names moves descends asks =>
      obtain rfl := aimed
      exact absurd asks.1 (by decide)
  | case5 =>
      obtain rfl := Except.error.inj refused
      exact .inr rfl
  | case6 directory name names moves descends allowed short stands ih => exact ih refused
  | case7 => cases refused
  | case8 =>
      obtain rfl := Except.error.inj refused
      exact .inl rfl
  | case9 => cases refused
  | case10 => cases refused
  | case11 => cases refused
  | case12 =>
      obtain rfl := Except.error.inj refused
      exact .inl rfl

/-- What a path leads to is not found, or a name on the way is too long. -/
theorem errno_of_walk {tree : FileTree} {links : Nat} {directory : Location}
    {names : List FileName} {errno : Errno}
    (refused : tree.walk .target links directory names = .error errno) :
    errno.leadsNowhere = true ∨ errno = .nameTooLong := by
  generalize aimed : WalkAim.target = targeted at refused
  fun_induction tree.walk targeted links directory names with
  | case1 links directory names why strode =>
      obtain rfl := aimed
      obtain rfl := Except.error.inj refused
      exact errno_of_advance strode
  | case2 => cases refused
  | case3 =>
      obtain rfl := Except.error.inj refused
      exact .inl rfl
  | case4 directory names place target rest strode fewer ih => exact ih refused

/-- A question about the kind of an entry is refused only if a name is too long. -/
theorem eq_of_probe_error {tree : FileTree} {base : Location} {path : Path} {fault : Fault}
    (refused : tree.probe base path = .error fault) :
    fault = .system .nameTooLong path.toText := by
  rw [probe] at refused
  split at refused
  · cases refused
  · cases refused
  · rename_i errno shown located
    split at refused
    · cases refused
    · rename_i known
      obtain rfl := Except.error.inj refused
      rw [locate, locateText] at located
      split at located
      · cases located
      · cases walked : tree.walkBytes base .target (Utf8.encode path.toText) with
        | ok spot =>
            rw [walked] at located
            cases located
        | error other =>
            rw [walked] at located
            obtain ⟨rfl, rfl⟩ := Fault.system.inj (Except.error.inj located)
            rw [walkBytes] at walked
            split at walked
            · obtain rfl := Except.error.inj walked
              rfl
            · split at walked
              · obtain rfl := Except.error.inj walked
                exact absurd rfl known
              · rcases errno_of_walk walked with nowhere | rfl
                · exact absurd nowhere known
                · rfl
  · cases refused

/-- A path that is too long is refused. -/
theorem isPresent_of_long (tree : FileTree) (base : Location) {path : Path}
    (noNull : path.toText.holds '\x00' = false)
    (long : longestPath < (Utf8.encode path.toText).length) :
    tree.isPresent base path = .error (.system .nameTooLong path.toText) := by
  have located : tree.locate base .target path = .error (.system .nameTooLong path.toText) := by
    rw [locate, locateText, noNull, walkBytes, if_pos long]
    rfl
  rw [isPresent, probe, located]
  rfl

/-! ### The names in a directory -/

/-- Below the root, what stands is what has a key among the entries. -/
theorem get?_ne_none_iff (tree : FileTree) (name : FileName) (directory : Location) :
    tree.get? (name :: directory) ≠ none ↔ name :: directory ∈ tree.entries.keys := by
  rw [get?, if_neg (List.cons_ne_nil _ _), ne_eq, Dictionary.get?_eq_none_iff, Decidable.not_not]

/-- Whether a tree holds links is told by its entries. -/
theorem noLink_of_entries {tree : FileTree}
    (linkless : ∀ pair ∈ tree.entries.pairs, pair.2.isLink = false) (location : Location)
    (target : Bytes) : tree.get? location ≠ some (.link target) := by
  intro linked
  rw [get?] at linked
  split at linked
  · cases linked
  · have noLink := linkless _ (Dictionary.mem_of_get? linked)
    cases noLink

/-- The names of a directory are those at which something stands. -/
theorem mem_names_iff (tree : FileTree) (directory : Location) (name : FileName) :
    name ∈ tree.names directory ↔ tree.get? (name :: directory) ≠ none := by
  rw [get?_ne_none_iff, names, List.mem_filterMap]
  constructor
  · rintro ⟨location, member, shown⟩
    cases location with
    | nil => cases shown
    | cons first parent =>
        simp only at shown
        split at shown
        · rename_i same
          obtain rfl := Option.some.inj shown
          exact same ▸ List.mem_reverse.1 member
        · cases shown
  · intro member
    exact ⟨name :: directory, List.mem_reverse.2 member, if_pos rfl⟩

/-- The names in a directory are what an absolute path to it shows. -/
theorem namesAt_of_leads {tree : FileTree} (base : Location) {path : Path} {place : Location}
    (absolute : path.isAbsolute = true) (leads : tree.Leads path place) :
    tree.namesAt base path = .ok (tree.names place) := by
  rw [namesAt, locate_base tree base .target absolute, leads]

/-! ### Growing by directories -/

/-- The new tree has all entries of the old one, and directories where that has none. -/
def Grown (old new : FileTree) : Prop :=
  ∀ location, new.get? location = old.get? location ∨
    old.get? location = none ∧ new.get? location = some .directory

namespace Grown

/-- A tree is grown from itself. -/
theorem refl (tree : FileTree) : Grown tree tree :=
  fun _ => .inl rfl

/-- What is grown twice is grown. -/
theorem trans {first second third : FileTree} (one : Grown first second)
    (two : Grown second third) : Grown first third := by
  intro location
  rcases two location with same | ⟨absent, made⟩
  · rcases one location with older | ⟨missing, there⟩
    · exact .inl (same.trans older)
    · exact .inr ⟨missing, same.trans there⟩
  · rcases one location with older | ⟨missing, there⟩
    · exact .inr ⟨older.symm.trans absent, made⟩
    · exact .inr ⟨missing, made⟩

/-- A new directory where nothing stood makes a grown tree. -/
theorem put {tree : FileTree} {location : Location} (absent : tree.get? location = none) :
    Grown tree (tree.put location .directory) := by
  have below : location ≠ [] := by
    rintro rfl
    cases absent
  intro other
  rw [get?_put _ _ _ _ below]
  by_cases same : other = location
  · exact .inr ⟨same ▸ absent, if_pos same⟩
  · exact .inl (if_neg same)

/-- What stood stands in a grown tree. -/
theorem get?_of_some {old new : FileTree} (grown : Grown old new) {location : Location}
    {entry : Entry} (stands : old.get? location = some entry) :
    new.get? location = some entry := by
  rcases grown location with same | ⟨absent, -⟩
  · exact same.trans stands
  · rw [stands] at absent
    cases absent

/-- A tree that grew keeps every way. -/
theorem keepsWays {old new : FileTree} (grown : Grown old new) : KeepsWays old new :=
  fun _ _ stands _ => grown.get?_of_some stands

end Grown

/-- There is no way through what does not stand. -/
theorem noWay_of_none {tree : FileTree} {location : Location}
    (absent : tree.get? location = none) : tree.NoWay location := by
  intro entry stands
  rw [absent] at stands
  cases stands

/-- There is no way through a file. -/
theorem noWay_of_file {tree : FileTree} {location : Location} {content : Bytes}
    {modified : FileTime} (stands : tree.get? location = some (.file content modified)) :
    tree.NoWay location := by
  intro entry found
  rw [stands] at found
  cases found
  rfl

/-- Making a directory puts it where nothing stood, and its path leads to it. -/
theorem exists_of_makeDirectory {tree new : FileTree} (grounded : tree.Grounded)
    {base : Location} {path : Path} (absolute : path.isAbsolute = true)
    (made : tree.makeDirectory base path = .ok new) :
    ∃ name directory, tree.locate [] .entry path = .ok (.missing directory name) ∧
      tree.get? (name :: directory) = none ∧ tree.get? directory = some .directory ∧
      new = tree.put (name :: directory) .directory ∧ new.Leads path (name :: directory) := by
  rw [makeDirectory, locate_base tree base .entry absolute] at made
  cases located : tree.locate [] .entry path with
  | error fault =>
      rw [located] at made
      cases made
  | ok spot =>
      rw [located] at made
      cases spot with
      | found location entry => cases made
      | missing directory name =>
          obtain rfl := Except.ok.inj made
          obtain ⟨absent, above⟩ := holds_of_locate_absolute grounded absolute located
          have keeps := keepsWays_put .directory (noWay_of_none absent)
          have stands : (tree.put (name :: directory) .directory).get? (name :: directory) =
              some .directory := by
            rw [get?_put _ _ _ _ (List.cons_ne_nil _ _), if_pos rfl]
          exact ⟨name, directory, rfl, absent, above, rfl,
            locate_target_of_spot keeps absolute located rfl stands rfl⟩

/-- Where making a directory met a missing way, its path leads to no directory later,
if the directory above was there before or holds nothing. -/
theorem not_leads_of_notFound {old new : FileTree} {base : Location} {above : Path}
    {last shown : Text} {parent place : Location} (absolute : above.isAbsolute = true)
    (name : IsEntryName last)
    (missing : old.makeDirectory base (above.child last) = .error (.system .notFound shown))
    (leads : new.Leads above parent)
    (origin : old.Leads above parent ∨ ∀ inner, new.get? (inner :: parent) = none) :
    ¬ new.Leads (above.child last) place := by
  intro later
  have below : (above.child last).isAbsolute = true := absolute
  rcases origin with before | empty
  · have fits := (fits_of_locate below later).1
    rw [makeDirectory, locate_base old base .entry below,
      locate_child absolute name fits before (.inl rfl)] at missing
    by_cases long : longestName < (Utf8.encode last).length
    · rw [if_pos long] at missing
      cases missing
    · rw [if_neg long] at missing
      cases stands : old.get? (Utf8.encode last :: parent) with
      | none =>
          rw [spotIn_of_none stands] at missing
          cases missing
      | some entry =>
          rw [spotIn_of_some stands] at missing
          cases missing
  · have absent := empty (Utf8.encode last)
    have ended := (eq_spotIn_of_locate_child absolute name leads
      (.inr (by simp [absent])) later).1
    rw [spotIn_of_none absent] at ended
    cases ended

/-! ### Writing through a path -/

/-- After a file is written, its path leads to it. -/
theorem exists_of_write {tree new : FileTree} (grounded : tree.Grounded) {base : Location}
    {moment : FileTime} {path : Path} {content : Bytes} (absolute : path.isAbsolute = true)
    (written : tree.write base moment path content = .ok new) :
    ∃ location, new.locate [] .target path = .ok (.found location (.file content moment)) ∧
      tree.NoWay location ∧ new = tree.put location (.file content moment) := by
  rw [write, locate_base tree base .writing absolute] at written
  cases located : tree.locate [] .writing path with
  | error fault =>
      rw [located] at written
      cases written
  | ok spot =>
      have holds := holds_of_locate_absolute grounded absolute located
      have reached : ∀ location, tree.NoWay location → spot.location = location →
          spot.isDirectory = false →
          (tree.put location (.file content moment)).locate [] .target path =
            .ok (.found location (.file content moment)) := by
        rintro location noWay rfl noDirectory
        refine locate_target_of_spot (keepsWays_put _ noWay) absolute located noDirectory ?_ rfl
        rw [get?_put _ _ _ _ (ne_root_of_noWay noWay), if_pos rfl]
      rw [located] at written
      cases spot with
      | missing directory name =>
          obtain rfl := Except.ok.inj written
          have noWay := noWay_of_none holds.1
          exact ⟨_, reached _ noWay rfl rfl, noWay, rfl⟩
      | found location entry =>
          cases entry with
          | directory => cases written
          | link target => cases written
          | file old modified =>
              obtain rfl := Except.ok.inj written
              have noWay := noWay_of_file holds
              exact ⟨_, reached _ noWay rfl rfl, noWay, rfl⟩

/-- A path to a file leads to that file after a write by another path, even if this wrote the
same file. -/
theorem exists_locate_of_write {tree new : FileTree} (grounded : tree.Grounded) {base : Location}
    {moment modified : FileTime} {path other : Path} {content old : Bytes} {location : Location}
    (absolute : path.isAbsolute = true) (otherAbsolute : other.isAbsolute = true)
    (located : tree.locate [] .target path = .ok (.found location (.file old modified)))
    (written : tree.write base moment other content = .ok new) :
    ∃ kept time, new.locate [] .target path = .ok (.found location (.file kept time)) ∧
      (time = modified ∨ time = moment) := by
  obtain ⟨place, -, noWay, rfl⟩ := exists_of_write grounded otherAbsolute written
  have keeps := keepsWays_put (.file content moment) noWay
  have stood : tree.get? location = some (.file old modified) :=
    holds_of_locate_absolute grounded absolute located
  have now := get?_put tree place location (.file content moment) (ne_root_of_noWay noWay)
  by_cases same : location = place
  · rw [if_pos same] at now
    exact ⟨content, moment, locate_target_of_spot keeps absolute located rfl now rfl, .inr rfl⟩
  · rw [if_neg same, stood] at now
    exact ⟨old, modified, locate_target_of_spot keeps absolute located rfl now rfl, .inl rfl⟩

/-! ### What the system refuses

Without a NUL in a path, only the system can refuse an operation, and it names the path.
-/

section Refused

variable {tree : FileTree} {base : Location} {path : Path} {fault : Fault}

/-- Apart from a NUL in its path, a look at a file is refused by the system, in words about this
path. -/
theorem exists_system_of_status (noNull : path.toText.holds '\x00' = false)
    (refused : tree.status base path = .error fault) :
    ∃ errno, fault = .system errno path.toText := by
  rw [status] at refused
  split at refused
  · cases refused
  · exact ⟨.notFound, (Except.error.inj refused).symm⟩
  · rename_i other located
    obtain rfl := Except.error.inj refused
    exact exists_system_of_locate noNull located

/-- Apart from a NUL in its path, reading a file is refused by the system, in words about this path.
-/
theorem exists_system_of_read (noNull : path.toText.holds '\x00' = false)
    (refused : tree.read base path = .error fault) :
    ∃ errno, fault = .system errno path.toText := by
  rw [read] at refused
  split at refused
  · cases refused
  · exact ⟨.isDirectory, (Except.error.inj refused).symm⟩
  · exact ⟨.notFound, (Except.error.inj refused).symm⟩
  · rename_i other located
    obtain rfl := Except.error.inj refused
    exact exists_system_of_locate noNull located

/-- Apart from a NUL in its path, taking a file away is refused by the system, in words about this
path. -/
theorem exists_system_of_unlink (noNull : path.toText.holds '\x00' = false)
    (refused : tree.unlink base path = .error fault) :
    ∃ errno, fault = .system errno path.toText := by
  rw [unlink] at refused
  split at refused
  · exact ⟨.isDirectory, (Except.error.inj refused).symm⟩
  · cases refused
  · exact ⟨.notFound, (Except.error.inj refused).symm⟩
  · rename_i other located
    obtain rfl := Except.error.inj refused
    exact exists_system_of_locate noNull located

/-- Apart from a NUL in its path, making a directory is refused by the system, in words about this
path. -/
theorem exists_system_of_makeDirectory (noNull : path.toText.holds '\x00' = false)
    (refused : tree.makeDirectory base path = .error fault) :
    ∃ errno, fault = .system errno path.toText := by
  rw [makeDirectory] at refused
  split at refused
  · exact ⟨.alreadyExists, (Except.error.inj refused).symm⟩
  · cases refused
  · rename_i other located
    obtain rfl := Except.error.inj refused
    exact exists_system_of_locate noNull located

/-- Apart from a NUL in its path, the names in a directory are refused by the system, in words about
this path. -/
theorem exists_system_of_namesAt (noNull : path.toText.holds '\x00' = false)
    (refused : tree.namesAt base path = .error fault) :
    ∃ errno, fault = .system errno path.toText := by
  rw [namesAt] at refused
  split at refused
  · cases refused
  · exact ⟨.notDirectory, (Except.error.inj refused).symm⟩
  · exact ⟨.notFound, (Except.error.inj refused).symm⟩
  · rename_i other located
    obtain rfl := Except.error.inj refused
    exact exists_system_of_locate noNull located

end Refused

/-- Apart from a NUL in its path, writing a file is refused by the system, in words about this path.
-/
theorem exists_system_of_write {tree : FileTree} {base : Location} {moment : FileTime}
    {path : Path} {content : Bytes} {fault : Fault} (noNull : path.toText.holds '\x00' = false)
    (refused : tree.write base moment path content = .error fault) :
    ∃ errno, fault = .system errno path.toText := by
  rw [write] at refused
  split at refused
  · cases refused
  · exact ⟨.isDirectory, (Except.error.inj refused).symm⟩
  · cases refused
  · rename_i other located
    obtain rfl := Except.error.inj refused
    exact exists_system_of_locate noNull located

/-- A file is read where its path leads. -/
theorem read_of_locate {tree : FileTree} (base : Location) {path : Path} {location : Location}
    {content : Bytes} {modified : FileTime} (absolute : path.isAbsolute = true)
    (located : tree.locate [] .target path = .ok (.found location (.file content modified))) :
    tree.read base path = .ok content := by
  rw [read, locate_base tree base .target absolute, located]

/-- An absolute path reads the same from everywhere. -/
theorem read_base (tree : FileTree) (base : Location) {path : Path}
    (absolute : path.isAbsolute = true) : tree.read base path = tree.read [] path := by
  rw [read, read, locate_base tree base .target absolute]

/-- Reading succeeds exactly at a path to a file, with its content. -/
theorem read_eq_ok_iff {tree : FileTree} {base : Location} {path : Path} {content : Bytes} :
    tree.read base path = .ok content ↔
      ∃ place modified, tree.locate base .target path =
        .ok (.found place (.file content modified)) := by
  rw [read]
  split
  · rename_i located
    simp [located]
  · rename_i location entry other located
    simp only [located, reduceCtorEq, false_iff, not_exists]
    rintro place modified same
    obtain ⟨-, rfl⟩ := Spot.found.inj (Except.ok.inj same)
    exact other _ _ rfl
  · rename_i located
    simp [located]
  · rename_i located
    simp [located]

/-- What can be read is a file. -/
theorem isFile_of_read {tree : FileTree} {base : Location} {path : Path} {content : Bytes}
    (reads : tree.read base path = .ok content) : tree.isFile base path = .ok true := by
  obtain ⟨place, modified, located⟩ := read_eq_ok_iff.1 reads
  rw [isFile, probe, located]
  rfl

/-! ### Files in a directory that a path leads to -/

section Child

variable {tree : FileTree} {directory : Path} {part : Text} {place : Location}

/-- A file can stand in a directory under a name: no way is there, and neither the name
nor its path is too long. -/
structure TakesFile (tree : FileTree) (directory : Path) (part : Text) (place : Location) :
    Prop where
  noWay : tree.NoWay (Utf8.encode part :: place)
  short : (Utf8.encode part).length ≤ longestName
  fits : (directory.child part).Fits

/-- Writing a child path puts the file under its name. -/
theorem write_child {new : FileTree} {base : Location} {moment : FileTime} {content : Bytes}
    (absolute : directory.isAbsolute = true) (name : IsEntryName part)
    (leads : tree.Leads directory place)
    (noLink : ∀ target, tree.get? (Utf8.encode part :: place) ≠ some (.link target))
    (written : tree.write base moment (directory.child part) content = .ok new) :
    new = tree.put (Utf8.encode part :: place) (.file content moment) ∧
      tree.TakesFile directory part place := by
  have below : (directory.child part).isAbsolute = true := absolute
  rw [write, locate_base tree base .writing below] at written
  cases located : tree.locate [] .writing (directory.child part) with
  | error fault =>
      rw [located] at written
      cases written
  | ok spot =>
      have fits := (fits_of_locate below located).1
      obtain ⟨rfl, short⟩ :=
        eq_spotIn_of_locate_child absolute name leads (.inr noLink) located
      rw [located] at written
      cases stands : tree.get? (Utf8.encode part :: place) with
      | none =>
          rw [spotIn_of_none stands] at written
          obtain rfl := Except.ok.inj written
          exact ⟨rfl, noWay_of_none stands, short, fits⟩
      | some entry =>
          rw [spotIn_of_some stands] at written
          cases entry with
          | directory => cases written
          | link target => cases written
          | file old modified =>
              obtain rfl := Except.ok.inj written
              exact ⟨rfl, noWay_of_file stands, short, fits⟩

/-- A child path reads the file that bears its name. -/
theorem read_child (base : Location) {content : Bytes} {modified : FileTime}
    (absolute : directory.isAbsolute = true) (name : IsEntryName part)
    (fits : (directory.child part).Fits)
    (short : (Utf8.encode part).length ≤ longestName) (leads : tree.Leads directory place)
    (stands : tree.get? (Utf8.encode part :: place) = some (.file content modified)) :
    tree.read base (directory.child part) = .ok content := by
  have noLink : ∀ target, tree.get? (Utf8.encode part :: place) ≠ some (.link target) := by
    simp [stands]
  have below : (directory.child part).isAbsolute = true := absolute
  have located : tree.locate [] .target (directory.child part) =
      .ok (.found (Utf8.encode part :: place) (.file content modified)) := by
    rw [locate_child absolute name fits leads (.inr noLink), if_neg (Nat.not_lt.2 short),
      spotIn_of_some stands]
  exact read_of_locate base below located

end Child

end FileTree

end PatchShelf
