/-
Module: PatchShelf.Proofs.FileTree.Children
Purpose: What operations by path do to the entries of one directory, and where none is yet.
Main exports:
  FileTree.EntryPath, FileTree.EntryPath.probe, FileTree.EntryPath.unlink_file,
  FileTree.Vacant, FileTree.Vacant.locate, FileTree.exists_found_of_leads
-/
import PatchShelf.Proofs.FileTree.Sound

/-!
Below a directory that a path leads to, an operation on an entry is decided by what
stands there, provided that the path of the entry can be taken at all.  A path is
vacant if it has components for directories that are still to be made: the first of them
is missing in a directory that is there.
-/

namespace PatchShelf

namespace FileTree

/-- The path of an entry that an absolute path of a directory and a name give, and that
the system can take. -/
structure EntryPath (directory : Path) (part : Text) : Prop where
  absolute : directory.isAbsolute = true
  name : IsEntryName part
  short : (Utf8.encode part).length ≤ longestName
  fits : (directory.child part).Fits

/-- An absolute path whose status is known is one that the system can take. -/
theorem fits_of_status {tree : FileTree} {base : Location} {path : Path} {found : FileStatus}
    (absolute : path.isAbsolute = true) (asked : tree.status base path = .ok found) :
    path.Fits := by
  rw [status] at asked
  split at asked
  · rename_i located
    exact (fits_of_locate absolute located).1
  all_goals cases asked

namespace EntryPath

variable {tree : FileTree} {directory : Path} {part : Text} {place : Location}

/-- The path to a child leads to what stands at its name, if that is no link or links are not
followed. -/
theorem locate (path : EntryPath directory part) (leads : tree.Leads directory place)
    (base : Location) (aim : WalkAim)
    (noLink : aim = .entry ∨
      ∀ target, tree.get? (Utf8.encode part :: place) ≠ some (.link target)) :
    tree.locate base aim (directory.child part) =
      .ok (tree.spotIn place (Utf8.encode part)) := by
  have below : (directory.child part).isAbsolute = true := path.absolute
  rw [locate_base tree base aim below, locate_child path.absolute path.name path.fits leads noLink,
    if_neg (Nat.not_lt.2 path.short)]

/-- A probe finds what stands there. -/
theorem probe (path : EntryPath directory part) (leads : tree.Leads directory place)
    (base : Location)
    (noLink : ∀ target, tree.get? (Utf8.encode part :: place) ≠ some (.link target)) :
    tree.probe base (directory.child part) = .ok (tree.get? (Utf8.encode part :: place)) := by
  rw [FileTree.probe, path.locate leads base .target (.inr noLink), spotIn]
  cases tree.get? (Utf8.encode part :: place) with
  | none => rfl
  | some entry => rfl

theorem status (path : EntryPath directory part) (leads : tree.Leads directory place)
    (base : Location) {entry : Entry}
    (stands : tree.get? (Utf8.encode part :: place) = some entry) (noLink : entry.isLink = false) :
    tree.status base (directory.child part) = .ok entry.status := by
  have unlinked : ∀ target, tree.get? (Utf8.encode part :: place) ≠ some (.link target) := by
    rintro target linked
    obtain rfl := Option.some.inj (stands.symm.trans linked)
    cases noLink
  rw [FileTree.status, path.locate leads base .target (.inr unlinked), spotIn_of_some stands]

theorem read_file (path : EntryPath directory part) (leads : tree.Leads directory place)
    (base : Location) {content : Bytes} {modified : FileTime}
    (stands : tree.get? (Utf8.encode part :: place) = some (.file content modified)) :
    tree.read base (directory.child part) = .ok content :=
  read_child base path.absolute path.name path.fits path.short leads stands

/-- A new file is put there. -/
theorem write_missing (path : EntryPath directory part) (leads : tree.Leads directory place)
    (base : Location) (absent : tree.get? (Utf8.encode part :: place) = none) (moment : FileTime)
    (content : Bytes) :
    tree.write base moment (directory.child part) content =
      .ok (tree.put (Utf8.encode part :: place) (.file content moment)) := by
  rw [write, path.locate leads base .writing (.inr (by simp [absent])), spotIn_of_none absent]

/-- A file is taken away from there. -/
theorem unlink_file (path : EntryPath directory part) (leads : tree.Leads directory place)
    (base : Location) {content : Bytes} {modified : FileTime}
    (stands : tree.get? (Utf8.encode part :: place) = some (.file content modified)) :
    tree.unlink base (directory.child part) =
      .ok (tree.remove (Utf8.encode part :: place)) := by
  rw [unlink, path.locate leads base .entry (.inl rfl), spotIn_of_some stands]

theorem unlink_missing (path : EntryPath directory part) (leads : tree.Leads directory place)
    (base : Location) (absent : tree.get? (Utf8.encode part :: place) = none) :
    tree.unlink base (directory.child part) =
      .error (.system .notFound (directory.child part).toText) := by
  rw [unlink, path.locate leads base .entry (.inl rfl), spotIn_of_none absent]

/-- A new directory is put there. -/
theorem makeDirectory_missing (path : EntryPath directory part)
    (leads : tree.Leads directory place) (base : Location)
    (absent : tree.get? (Utf8.encode part :: place) = none) :
    tree.makeDirectory base (directory.child part) =
      .ok (tree.put (Utf8.encode part :: place) .directory) := by
  rw [makeDirectory, path.locate leads base .entry (.inl rfl), spotIn_of_none absent]

end EntryPath

/-! ### Directories that are there already -/

/-- A walk to an entry ends like a walk to what it leads to, or at a link before. -/
theorem advance_entry_of_target {tree : FileTree} {directory : Location} {names : List FileName}
    {stride : Stride} (walked : tree.advance .target directory names = .ok stride) :
    tree.advance .entry directory names = .ok stride ∨
      ∃ location entry,
        tree.advance .entry directory names = .ok (.ended (.found location entry)) := by
  obtain ⟨place, left, passed, halted⟩ := advance_eq_ok_iff.1 walked
  have onward : tree.Traverses .entry _ _ _ _ := passed.reading (by decide)
  have again {name : FileName} {rest : List FileName} (admitted : Admits .target name rest) :
      Admits .entry name rest := admitted.reading (by decide) rest
  cases halted with
  | arrived => exact .inl (advance_eq_ok_iff.2 ⟨_, _, onward, .arrived⟩)
  | file admitted stands =>
      exact .inl (advance_eq_ok_iff.2 ⟨_, _, onward, .file (again admitted) stands⟩)
  | link _ _ itself => cases itself
  | @linked name rest target admitted stands _ =>
      by_cases last : rest = []
      · subst last
        exact .inr ⟨_, _, advance_eq_ok_iff.2 ⟨_, _, onward, .link (again admitted) stands rfl⟩⟩
      · have follows : ¬ (rest = [] ∧ WalkAim.entry = .entry) := fun both => last both.1
        exact .inl
          (advance_eq_ok_iff.2 ⟨_, _, onward, .linked (again admitted) stands follows⟩)
  | missing admitted absent =>
      exact .inl (advance_eq_ok_iff.2 ⟨_, _, onward, .missing (again admitted) absent⟩)

/-- A walk that finds a target finds an entry, which may be a link to it. -/
theorem exists_walk_entry_of_target {tree : FileTree} {links : Nat} {directory place : Location}
    {names : List FileName} {entry : Entry}
    (walked : tree.walk .target links directory names = .ok (.found place entry)) :
    ∃ location other, tree.walk .entry links directory names = .ok (.found location other) := by
  generalize aimed : WalkAim.target = targeted at walked
  fun_induction tree.walk targeted links directory names with
  | case1 => simp at walked
  | case2 links directory names found strode =>
      obtain rfl := Except.ok.inj walked
      rw [← aimed] at strode
      rcases advance_entry_of_target strode with same | ⟨location, other, ended⟩
      · exact ⟨place, entry, by rw [walk, same]⟩
      · exact ⟨location, other, by rw [walk, ended]⟩
  | case3 => simp at walked
  | case4 directory names place target more strode fewer ih =>
      rw [← aimed] at strode
      rcases advance_entry_of_target strode with same | ⟨location, other, ended⟩
      · obtain ⟨location, other, later⟩ := ih walked
        refine ⟨location, other, ?_⟩
        rw [walk, same]
        exact later
      · exact ⟨location, other, by rw [walk, ended]⟩

/-- No directory is made where a path leads to one. -/
theorem makeDirectory_of_leads {tree : FileTree} (base : Location) {path : Path}
    {place : Location} (absolute : path.isAbsolute = true) (leads : tree.Leads path place) :
    tree.makeDirectory base path = .error (.system .alreadyExists path.toText) := by
  obtain ⟨fits, walked⟩ := fits_of_locate absolute leads
  obtain ⟨location, entry, ended⟩ := exists_walk_entry_of_target walked
  rw [makeDirectory, locate_base tree base .entry absolute,
    locate_eq_walk tree [] .entry absolute fits, ended]
  rfl

/-! ### Directories that are still to be made -/

/-- The path has components that are missing, the first of them in a directory that is
there. -/
inductive Gap (tree : FileTree) : Path → Prop
  | here {above : Path} {last : Text} {place : Location} (leads : tree.Leads above place)
      (absent : tree.get? (Utf8.encode last :: place) = none) : Gap tree (above.child last)
  | deeper {above : Path} {last : Text} (higher : Gap tree above) : Gap tree (above.child last)

/-- A gap in a path opens at one of its parts, above which it leads somewhere. -/
theorem Gap.exists_below {tree : FileTree} {path : Path} (gap : tree.Gap path) :
    ∃ above last more place, path = above.below (last :: more) ∧ tree.Leads above place ∧
      tree.get? (Utf8.encode last :: place) = none := by
  induction gap with
  | here leads absent => exact ⟨_, _, [], _, rfl, leads, absent⟩
  | deeper higher ih =>
      obtain ⟨above, last, more, place, rfl, leads, absent⟩ := ih
      exact ⟨above, last, _, place,
        (Path.below_append_singleton above (last :: more) _).symm, leads, absent⟩

/-- Directories can be made from the components of the path that are missing. -/
structure Vacant (tree : FileTree) (path : Path) : Prop where
  absolute : path.isAbsolute = true
  fits : path.Fits
  names : ∀ part ∈ path.parts, IsEntryName part
  short : ∀ part ∈ path.parts, (Utf8.encode part).length ≤ longestName
  gap : tree.Gap path

/-- A path goes as far as its first missing component. -/
theorem locate_below_missing {tree : FileTree} (base : Location) (aim : WalkAim) {above : Path}
    {last : Text} {more : List Text} {place : Location} (absolute : above.isAbsolute = true)
    (fits : (above.below (last :: more)).Fits) (names : ∀ part ∈ last :: more, IsEntryName part)
    (short : (Utf8.encode last).length ≤ longestName) (leads : tree.Leads above place)
    (absent : tree.get? (Utf8.encode last :: place) = none) :
    tree.locate base aim (above.below (last :: more)) =
      if more = [] then .ok (.missing place (Utf8.encode last))
      else .error (.system .notFound (above.below (last :: more)).toText) := by
  have below : (above.below (last :: more)).isAbsolute = true := absolute
  obtain ⟨fewer, same⟩ := exists_walk_below aim absolute (List.cons_ne_nil last more) names leads
  have plain := (names last List.mem_cons_self).plain
  have onward : asksForDirectory (more.map Utf8.encode) = false := by
    cases more with
    | nil => rfl
    | cons next more =>
        have later := (names next (by simp)).plain
        exact asksForDirectory_append [] (goesOn_cons later (more.map Utf8.encode))
  rw [locate_base tree base aim below, locate_eq_walk tree [] aim below fits, same, List.map_cons,
    walk, advance_of_admits ⟨plain, by simp [onward], short⟩, absent]
  by_cases ends : more = []
  · simp only [ends, List.map_nil, if_true]
    rfl
  · simp only [ends, List.map_eq_nil_iff, if_false]
    rfl

namespace Vacant

variable {tree : FileTree} {path : Path}

/-- What lies below a vacant path is not found, not even by name. -/
theorem locate_child {part : Text} (vacant : tree.Vacant path) (entry : EntryPath path part)
    (base : Location) (aim : WalkAim) :
    tree.locate base aim (path.child part) =
      .error (.system .notFound (path.child part).toText) := by
  obtain ⟨above, last, more, place, rfl, leads, absent⟩ := vacant.gap.exists_below
  have deeper : (above.below (last :: more)).child part = above.below (last :: (more ++ [part])) :=
    (Path.below_append_singleton above (last :: more) part).symm
  have rooted : above.isAbsolute = true := vacant.absolute
  have fits := entry.fits
  rw [deeper] at fits ⊢
  rw [locate_below_missing base aim rooted fits ?_ ?_ leads absent,
    if_neg (List.append_ne_nil_of_right_ne_nil _ (List.cons_ne_nil part []))]
  · intro other member
    rw [← List.cons_append] at member
    rcases List.mem_append.1 member with inside | new
    · exact vacant.names other (List.mem_append_right _ inside)
    · obtain rfl := List.mem_singleton.1 new
      exact entry.name
  · exact vacant.short last (List.mem_append_right _ List.mem_cons_self)

theorem probe_child {part : Text} (vacant : tree.Vacant path) (entry : EntryPath path part)
    (base : Location) : tree.probe base (path.child part) = .ok none := by
  rw [probe, vacant.locate_child entry]
  rfl

theorem probe (vacant : tree.Vacant path) (base : Location) : tree.probe base path = .ok none := by
  obtain ⟨above, last, more, place, rfl, leads, absent⟩ := vacant.gap.exists_below
  have rooted : above.isAbsolute = true := vacant.absolute
  rw [FileTree.probe, locate_below_missing base .target rooted vacant.fits
    (fun part member => vacant.names part (List.mem_append_right _ member))
    (vacant.short last (List.mem_append_right _ List.mem_cons_self)) leads absent]
  by_cases ends : more = []
  · rw [if_pos ends]
  · rw [if_neg ends]
    rfl

/-- What is missing in a directory that is missing as well. -/
theorem parent {above : Path} {last : Text} (vacant : tree.Vacant (above.child last))
    (higher : tree.Gap above) : tree.Vacant above where
  absolute := vacant.absolute
  fits := vacant.fits.of_child vacant.absolute
  names := fun part member => vacant.names part (List.mem_append_left _ member)
  short := fun part member => vacant.short part (List.mem_append_left _ member)
  gap := higher

/-- The last component of a vacant path, as an entry of the directory above it. -/
theorem entryPath {above : Path} {last : Text} (vacant : tree.Vacant (above.child last)) :
    EntryPath above last where
  absolute := vacant.absolute
  name := vacant.names last (List.mem_append_right _ (List.mem_singleton_self last))
  short := vacant.short last (List.mem_append_right _ (List.mem_singleton_self last))
  fits := vacant.fits

theorem not_leads (vacant : tree.Vacant path) (place : Location) : ¬ tree.Leads path place := by
  intro leads
  have there := (probe_eq_some_iff tree [] path .directory).2 ⟨place, leads⟩
  rw [vacant.probe] at there
  cases there

end Vacant

end FileTree

end PatchShelf
