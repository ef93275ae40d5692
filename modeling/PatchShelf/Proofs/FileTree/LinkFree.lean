/-
Module: PatchShelf.Proofs.FileTree.LinkFree
Purpose: Trees without links, in which a path leads where its components say.
Main exports:
  FileTree.Spelled, FileTree.LinkFree, FileTree.LinkFree.location_eq,
  FileTree.LinkFree.of_write, FileTree.LinkFree.of_unlink, FileTree.LinkFree.of_makeDirectory
-/
import Mathlib.Data.List.Induction
import PatchShelf.Proofs.FileTree.DeadEnds

/-!
Where no link stands, an absolute path that never leads upwards names one location, whatever
the tree holds: the components of the path, spelled as bytes.  So what is written, unlinked or
made by such a path can be told from the path.
-/

namespace PatchShelf

/-- The path from the root, and each of its components, names an entry. -/
structure FileTree.Spelled (path : Path) : Prop where
  absolute : path.isAbsolute = true
  names : ∀ part ∈ path.parts, FileTree.IsEntryName part

theorem Location.ofPath_child (path : Path) (part : Text) :
    Location.ofPath (path.child part) = Utf8.encode part :: Location.ofPath path := by
  simp [Location.ofPath]

theorem Location.ofPath_toPath (location : Location) :
    Location.ofPath location.toPath = location := by
  simp [Location.ofPath, Location.toPath, Utf8.encode_decodeEscaped, Function.comp_def]

namespace FileTree

/-- A sound tree without links. -/
structure LinkFree (tree : FileTree) : Prop extends tree.Sound where
  noLinks : ∀ location target, tree.get? location ≠ some (.link target)

namespace Spelled

theorem child {path : Path} (spelled : Spelled path) {part : Text} (name : IsEntryName part) :
    Spelled (path.child part) := by
  refine ⟨spelled.absolute, fun other member => ?_⟩
  rcases List.mem_append.1 member with higher | last
  · exact spelled.names other higher
  · exact List.mem_singleton.1 last ▸ name

theorem of_child {path : Path} {part : Text} (spelled : Spelled (path.child part)) :
    Spelled path ∧ IsEntryName part :=
  ⟨⟨spelled.absolute, fun other member => spelled.names other (List.mem_append_left _ member)⟩,
    spelled.names part (List.mem_append_right _ (List.mem_singleton_self part))⟩

end Spelled

variable {tree new : FileTree} {base : Location} {path : Path}

theorem location_spotIn (tree : FileTree) (directory : Location) (name : FileName) :
    (tree.spotIn directory name).location = name :: directory := by
  rw [spotIn]
  split
  · rfl
  · rfl

/-- The path without components leads to the root. -/
theorem eq_root_of_locate {anchor : Anchor} {aim : WalkAim} {spot : Spot}
    (absolute : (⟨anchor, []⟩ : Path).isAbsolute = true)
    (located : tree.locate [] aim ⟨anchor, []⟩ = .ok spot) : spot = .found [] .directory := by
  obtain ⟨-, walked⟩ := fits_of_locate absolute located
  cases anchor with
  | relative => cases absolute
  | root => exact (Except.ok.inj walked).symm
  | doubleRoot => exact (Except.ok.inj walked).symm

namespace LinkFree

theorem of_entries (sound : tree.Sound)
    (linkless : ∀ pair ∈ tree.entries.pairs, pair.2.isLink = false) : tree.LinkFree :=
  ⟨sound, fun _ target => noLink_of_entries linkless _ target⟩

/-- A path is walked to the location that it names. -/
theorem location_eq (free : tree.LinkFree) {aim : WalkAim} {spot : Spot}
    (spelled : Spelled path) (located : tree.locate [] aim path = .ok spot) :
    spot.location = Location.ofPath path := by
  obtain ⟨anchor, parts⟩ := path
  induction parts using List.reverseRecOn generalizing aim spot with
  | nil => rw [eq_root_of_locate spelled.absolute located]; rfl
  | append_singleton above part ih =>
      have child : (⟨anchor, above ++ [part]⟩ : Path) = Path.child ⟨anchor, above⟩ part := rfl
      rw [child] at spelled located ⊢
      obtain ⟨higher, name⟩ := spelled.of_child
      obtain ⟨place, leads⟩ := exists_leads_of_locate_child higher.absolute name located
      have here : place = Location.ofPath ⟨anchor, above⟩ := ih higher leads
      obtain ⟨rfl, -⟩ := eq_spotIn_of_locate_child higher.absolute name leads
        (.inr fun target => free.noLinks _ target) located
      rw [location_spotIn, Location.ofPath_child, here]

/-- The tree with something new at a location is still without links, unless this is one. -/
theorem put (free : tree.LinkFree) {location : Location} {entry : Entry}
    (sound : (tree.put location entry).Sound) (noLink : entry.isLink = false)
    (below : location ≠ []) : (tree.put location entry).LinkFree := by
  refine ⟨sound, fun other target linked => ?_⟩
  rw [get?_put _ _ _ _ below] at linked
  split at linked
  · obtain rfl := Option.some.inj linked
    cases noLink
  · exact free.noLinks other target linked

/-- A file is written where its path says. -/
theorem of_write (free : tree.LinkFree) (spelled : Spelled path) {moment : FileTime}
    {content : Bytes} (written : tree.write base moment path content = .ok new) :
    new = tree.put (Location.ofPath path) (.file content moment) ∧ new.LinkFree := by
  obtain ⟨location, there, noWay, rfl⟩ :=
    exists_of_write free.grounded spelled.absolute written
  have after : (tree.put location (.file content moment)).LinkFree :=
    free.put (free.toSound.write spelled.absolute written) rfl (ne_root_of_noWay noWay)
  have place : location = Location.ofPath path := after.location_eq spelled there
  exact ⟨by rw [place], after⟩

/-- What is unlinked is what stands where the path says. -/
theorem of_unlink (free : tree.LinkFree) (spelled : Spelled path)
    (unlinked : tree.unlink base path = .ok new) :
    new = tree.remove (Location.ofPath path) ∧ new.LinkFree := by
  rw [unlink, locate_base tree base .entry spelled.absolute] at unlinked
  cases located : tree.locate [] .entry path with
  | error fault =>
      rw [located] at unlinked
      cases unlinked
  | ok spot =>
      have place := free.location_eq spelled located
      have holds := holds_of_locate_absolute free.grounded spelled.absolute located
      rw [located] at unlinked
      cases spot with
      | missing directory name => cases unlinked
      | found location entry =>
          obtain rfl : location = Location.ofPath path := place
          cases entry with
          | directory => cases unlinked
          | link target => exact absurd holds (free.noLinks _ target)
          | file content modified =>
              obtain rfl := Except.ok.inj unlinked
              have noWay := noWay_of_file holds
              refine ⟨rfl, free.toSound.remove noWay, fun other target linked => ?_⟩
              rw [get?_remove _ _ _ (ne_root_of_noWay noWay)] at linked
              split at linked
              · cases linked
              · exact free.noLinks other target linked

/-- A directory is made where its path says, if nothing stands there. -/
theorem of_makeDirectory (free : tree.LinkFree) (spelled : Spelled path)
    (made : tree.makeDirectory base path = .ok new) :
    tree.get? (Location.ofPath path) = none ∧
      new = tree.put (Location.ofPath path) .directory ∧ new.LinkFree := by
  obtain ⟨name, directory, -, absent, -, rfl, leads⟩ :=
    exists_of_makeDirectory free.grounded spelled.absolute made
  have after : (tree.put (name :: directory) .directory).LinkFree :=
    free.put (free.toSound.makeDirectory spelled.absolute made) rfl (List.cons_ne_nil _ _)
  have place : name :: directory = Location.ofPath path :=
    after.location_eq spelled leads
  rw [← place]
  exact ⟨absent, rfl, after⟩

end LinkFree

end FileTree

end PatchShelf
