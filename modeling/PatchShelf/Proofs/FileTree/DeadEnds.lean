/-
Module: PatchShelf.Proofs.FileTree.DeadEnds
Purpose: What a longer path passes on its way, and entries that no path passes.
Main exports:
  FileTree.exists_of_walk_append, FileTree.walk_eq_of_ok, FileTree.exists_leads_of_locate_child,
  FileTree.DeadEnd, FileTree.DeadEnd.leads_remove_iff, FileTree.deadEnd_of_isFile
-/
import PatchShelf.Proofs.FileTree.Children

/-!
A path that leads anywhere passes a directory in front of each of its names, so what a
child path leads to has a directory that the path itself leads to.  An entry is a dead
end if no walk to a directory can pass it: a file, and a link to one.  Taking a dead end
away leaves every path to a directory as it is.
-/

namespace PatchShelf

namespace FileTree

/-! ### What is in front of a name -/

/-- A walk with names behind others passes them all, or halts at one of the others. -/
theorem Traverses.split {tree : FileTree} {aim : WalkAim} {directory place : Location}
    {names rest left : List FileName}
    (passed : tree.Traverses aim place left directory (names ++ rest)) :
    (∃ middle, tree.Traverses .target middle [] directory names) ∨
      ∃ more, left = more ++ rest ∧ tree.Traverses .target place more directory names := by
  generalize shown : names ++ rest = all at passed
  induction passed generalizing names with
  | here => exact .inr ⟨names, shown.symm, .here⟩
  | stay stays onward ih =>
      cases names with
      | nil => exact .inl ⟨_, .here⟩
      | cons name names =>
          obtain ⟨rfl, behind⟩ := List.cons.inj shown
          rcases ih behind with ⟨middle, whole⟩ | ⟨more, same, first⟩
          · exact .inl ⟨middle, .stay stays whole⟩
          · exact .inr ⟨more, same, .stay stays first⟩
  | up onward ih =>
      cases names with
      | nil => exact .inl ⟨_, .here⟩
      | cons name names =>
          obtain ⟨rfl, behind⟩ := List.cons.inj shown
          rcases ih behind with ⟨middle, whole⟩ | ⟨more, same, first⟩
          · exact .inl ⟨middle, .up whole⟩
          · exact .inr ⟨more, same, .up first⟩
  | down admitted stands onward ih =>
      cases names with
      | nil => exact .inl ⟨_, .here⟩
      | cons name names =>
          obtain ⟨rfl, behind⟩ := List.cons.inj shown
          have again : Admits .target name names := admitted.reading (by decide) names
          rcases ih behind with ⟨middle, whole⟩ | ⟨more, same, first⟩
          · exact .inl ⟨middle, .down again stands whole⟩
          · exact .inr ⟨more, same, .down again stands first⟩

/-- A walk that gets behind some names has a directory there, or met a link before. -/
theorem exists_of_advance_append {tree : FileTree} {aim : WalkAim} {directory : Location}
    {names rest : List FileName} {stride : Stride} (behind : rest ≠ [])
    (walked : tree.advance aim directory (names ++ rest) = .ok stride) :
    (∃ place, tree.advance .target directory names = .ok (.ended (.found place .directory))) ∨
      ∃ place target more, stride = .linked place target (more ++ rest) ∧
        tree.advance .target directory names = .ok (.linked place target more) := by
  obtain ⟨place, left, passed, halted⟩ := advance_eq_ok_iff.1 walked
  rcases passed.split with ⟨middle, whole⟩ | ⟨more, rfl, first⟩
  · exact .inl ⟨middle, advance_eq_ok_iff.2 ⟨_, _, whole, .arrived⟩⟩
  cases more with
  | nil => exact .inl ⟨place, advance_eq_ok_iff.2 ⟨_, _, first, .arrived⟩⟩
  | cons name more =>
      -- More than one name is left, so the walk can only have met a link.
      rw [List.cons_append] at halted
      generalize later : more ++ rest = others at halted
      have inside : others ≠ [] := later ▸ List.append_ne_nil_of_right_ne_nil more behind
      cases halted with
      | file => exact absurd rfl inside
      | link => exact absurd rfl inside
      | missing => exact absurd rfl inside
      | linked admitted stands follows =>
          subst later
          have again : Admits .target name more := admitted.reading (by decide) more
          exact .inr ⟨place, _, more, rfl,
            advance_eq_ok_iff.2 ⟨_, _, first, .linked again stands (by simp)⟩⟩

/-- A walk that gets behind some names would have ended at a directory without the rest. -/
theorem exists_of_walk_append {tree : FileTree} {aim : WalkAim} {links : Nat}
    {directory : Location} {names rest : List FileName} {spot : Spot} (behind : rest ≠ [])
    (walked : tree.walk aim links directory (names ++ rest) = .ok spot) :
    ∃ place, tree.walk .target links directory names = .ok (.found place .directory) := by
  generalize shown : names ++ rest = all at walked
  fun_induction tree.walk aim links directory all generalizing names with
  | case1 => cases walked
  | case2 links directory all found strode =>
      rw [← shown] at strode
      rcases exists_of_advance_append behind strode with ⟨place, ended⟩ | ⟨_, _, _, linked, -⟩
      · exact ⟨place, by rw [walk, ended]⟩
      · cases linked
  | case3 => cases walked
  | case4 directory all above target left strode fewer ih =>
      rw [← shown] at strode
      rcases exists_of_advance_append behind strode with ⟨place, ended⟩ | ⟨_, _, more, same, linked⟩
      · exact ⟨place, by rw [walk, ended]⟩
      · obtain ⟨rfl, rfl, rfl⟩ := Stride.linked.inj same
        rw [walk, linked]
        exact ih (List.append_assoc _ _ _) walked

/-- A child path that leads anywhere has a directory above, which the path leads to. -/
theorem exists_leads_of_locate_child {tree : FileTree} {aim : WalkAim} {path : Path} {part : Text}
    {spot : Spot} (absolute : path.isAbsolute = true) (name : IsEntryName part)
    (located : tree.locate [] aim (path.child part) = .ok spot) :
    ∃ place, tree.Leads path place := by
  have below : (path.child part).isAbsolute = true := absolute
  obtain ⟨fits, walked⟩ := fits_of_locate below located
  have above : path.Fits := fits.of_child absolute
  by_cases filled : path.parts = []
  · -- The path is that of the root.
    obtain ⟨anchor, parts⟩ := path
    obtain rfl : parts = [] := filled
    refine ⟨[], ?_⟩
    rw [Leads, locate_eq_walk tree [] .target absolute above]
    cases anchor with
    | relative => simp [Path.isAbsolute] at absolute
    | root => rfl
    | doubleRoot => rfl
  · rw [Path.names_child filled name.whole] at walked
    obtain ⟨place, ended⟩ := exists_of_walk_append (List.cons_ne_nil _ _) walked
    exact ⟨place, by rw [Leads, locate_eq_walk tree [] .target absolute above, ended]; rfl⟩

/-! ### How many links a walk may follow -/

/-- A walk that ends with some links left ends at the same spot with one more. -/
theorem walk_succ {tree : FileTree} {aim : WalkAim} {links : Nat} {directory : Location}
    {names : List FileName} {spot : Spot}
    (walked : tree.walk aim links directory names = .ok spot) :
    tree.walk aim (links + 1) directory names = .ok spot := by
  fun_induction tree.walk aim links directory names with
  | case1 => simp at walked
  | case2 links directory names found strode =>
      rw [walk, strode]
      exact walked
  | case3 => simp at walked
  | case4 directory names place target rest strode fewer ih =>
      rw [walk, strode]
      exact ih walked

theorem walk_add {tree : FileTree} {aim : WalkAim} {links : Nat} {directory : Location}
    {names : List FileName} {spot : Spot}
    (walked : tree.walk aim links directory names = .ok spot) (more : Nat) :
    tree.walk aim (links + more) directory names = .ok spot := by
  induction more with
  | zero => exact walked
  | succ more ih => exact walk_succ ih

/-- Two walks of the same names that end anywhere end at the same spot. -/
theorem walk_eq_of_ok {tree : FileTree} {aim : WalkAim} {one two : Nat} {directory : Location}
    {names : List FileName} {first second : Spot}
    (left : tree.walk aim one directory names = .ok first)
    (right : tree.walk aim two directory names = .ok second) : first = second := by
  have long := walk_add left two
  have other := walk_add right one
  rw [Nat.add_comm] at other
  exact Except.ok.inj (long.symm.trans other)

/-! ### Dead ends -/

/-- No walk to a directory passes the location: what stands there is no directory, and no
link that leads to one. -/
structure DeadEnd (tree : FileTree) (location : Location) : Prop where
  noDirectory : tree.get? location ≠ some .directory
  noLink : ∀ name above target, location = name :: above →
    tree.get? location = some (.link target) → ∀ links place,
      tree.walk .target links (startOf above target) (splitNames target) ≠
        .ok (.found place .directory)

namespace DeadEnd

variable {tree : FileTree} {location : Location}

theorem ne_root (dead : tree.DeadEnd location) : location ≠ [] := by
  rintro rfl
  exact dead.noDirectory rfl

theorem get?_remove_of_directory (dead : tree.DeadEnd location) {other : Location}
    (stands : tree.get? other = some .directory) :
    (tree.remove location).get? other = some .directory := by
  have apart : other ≠ location := by
    rintro rfl
    exact dead.noDirectory stands
  rw [get?_remove _ _ _ dead.ne_root, if_neg apart, stands]

theorem traverses_remove (dead : tree.DeadEnd location) {aim : WalkAim}
    {directory place : Location} {names left : List FileName}
    (passed : tree.Traverses aim place left directory names) :
    (tree.remove location).Traverses aim place left directory names :=
  passed.of_directories fun _ => dead.get?_remove_of_directory

/-- A walk that does not end at the dead end strides past it. -/
theorem advance_remove (dead : tree.DeadEnd location) {directory place : Location}
    {names : List FileName}
    (walked : tree.advance .target directory names = .ok (.ended (.found place .directory))) :
    (tree.remove location).advance .target directory names =
      .ok (.ended (.found place .directory)) := by
  obtain ⟨_, left, passed, halted⟩ := advance_eq_ok_iff.1 walked
  cases halted with
  | arrived => exact advance_eq_ok_iff.2 ⟨_, _, dead.traverses_remove passed, .arrived⟩

/-- A walk that meets a link meets it in the tree without the dead end as well, unless the
link is the dead end. -/
theorem advance_remove_linked (dead : tree.DeadEnd location) {directory place : Location}
    {names rest : List FileName} {target : Bytes}
    (walked : tree.advance .target directory names = .ok (.linked place target rest)) :
    (tree.remove location).advance .target directory names = .ok (.linked place target rest) ∨
      ∃ name, location = name :: place ∧ tree.get? location = some (.link target) := by
  obtain ⟨_, left, passed, halted⟩ := advance_eq_ok_iff.1 walked
  cases halted with
  | @linked name _ _ admitted stands follows =>
      by_cases same : name :: place = location
      · exact .inr ⟨name, same.symm, same ▸ stands⟩
      · have kept : (tree.remove location).get? (name :: place) = some (.link target) := by
          rw [get?_remove _ _ _ dead.ne_root, if_neg same, stands]
        exact .inl (advance_eq_ok_iff.2
          ⟨_, _, dead.traverses_remove passed, .linked admitted kept follows⟩)

theorem walk_remove (dead : tree.DeadEnd location) {links : Nat} {directory place : Location}
    {names : List FileName}
    (walked : tree.walk .target links directory names = .ok (.found place .directory)) :
    (tree.remove location).walk .target links directory names =
      .ok (.found place .directory) := by
  generalize aimed : WalkAim.target = targeted at walked ⊢
  fun_induction tree.walk targeted links directory names with
  | case1 => simp at walked
  | case2 links directory names spot strode =>
      obtain rfl := Except.ok.inj walked
      obtain rfl := aimed
      rw [walk, dead.advance_remove strode]
  | case3 => simp at walked
  | case4 directory names above target rest strode fewer ih =>
      obtain rfl := aimed
      rcases dead.advance_remove_linked strode with same | ⟨name, shown, stands⟩
      · rw [walk, same]
        exact ih walked
      · -- The walk goes on behind the dead end, so the link would lead to a directory.
        have ends : ∃ inner, tree.walk .target fewer (startOf above target) (splitNames target) =
            .ok (.found inner .directory) := by
          cases rest with
          | nil =>
              rw [List.append_nil] at walked
              exact ⟨place, walked⟩
          | cons next more =>
              exact exists_of_walk_append (List.cons_ne_nil next more) walked
        obtain ⟨inner, ended⟩ := ends
        exact absurd ended (dead.noLink name above target shown stands fewer inner)

/-- Without the dead end, every path leads to the directory that it led to before. -/
theorem leads_remove_iff (dead : tree.DeadEnd location) {path : Path} {place : Location}
    (absolute : path.isAbsolute = true) :
    (tree.remove location).Leads path place ↔ tree.Leads path place := by
  constructor
  · intro leads
    refine leads.of_keepsWays ?_ absolute
    intro other entry stands _
    rw [get?_remove _ _ _ dead.ne_root] at stands
    split at stands
    · cases stands
    · exact stands
  · intro leads
    obtain ⟨fits, walked⟩ := fits_of_locate absolute leads
    rw [Leads, locate_eq_walk _ [] .target absolute fits, dead.walk_remove walked]
    rfl

end DeadEnd

theorem deadEnd_of_noWay {tree : FileTree} {location : Location}
    (noWay : tree.NoWay location) : tree.DeadEnd location where
  noDirectory := by
    intro stands
    cases noWay _ stands
  noLink := by
    intro name above target _ stands
    cases noWay _ stands

/-- An entry whose path leads to a file is a dead end, and its path can be taken. -/
theorem deadEnd_of_isFile {tree : FileTree} {base : Location} {directory : Path} {part : Text}
    {place : Location} (absolute : directory.isAbsolute = true) (name : IsEntryName part)
    (leads : tree.Leads directory place)
    (found : tree.isFile base (directory.child part) = .ok true) :
    EntryPath directory part ∧ tree.DeadEnd (Utf8.encode part :: place) ∧
      tree.get? (Utf8.encode part :: place) ≠ none := by
  have below : (directory.child part).isAbsolute = true := absolute
  obtain ⟨location, content, modified, located⟩ := exists_of_isFile found
  rw [locate_base tree base .target below] at located
  obtain ⟨fits, walked⟩ := fits_of_locate below located
  obtain ⟨fewer, same⟩ := exists_walk_child .target absolute name leads
  rw [same] at walked
  have short : (Utf8.encode part).length ≤ longestName := by
    refine Nat.not_lt.1 fun long => ?_
    rw [walk, advance_of_long name.plain (by simp) long] at walked
    cases walked
  refine ⟨⟨absolute, name, short, fits⟩, ?_⟩
  cases stands : tree.get? (Utf8.encode part :: place) with
  | none =>
      rw [walk_singleton name.plain (.inr (by simp [stands])), if_neg (Nat.not_lt.2 short),
        spotIn_of_none stands] at walked
      cases walked
  | some entry =>
      refine ⟨?_, by simp⟩
      cases entry with
      | directory =>
          rw [walk_singleton name.plain (.inr (by simp [stands])), if_neg (Nat.not_lt.2 short),
            spotIn_of_some stands] at walked
          cases walked
      | file other moment => exact deadEnd_of_noWay (noWay_of_file stands)
      | link target =>
          refine ⟨by simp [stands], ?_⟩
          intro last above other shown linked links inner toDirectory
          obtain ⟨rfl, rfl⟩ := List.cons.inj shown
          obtain rfl := Entry.link.inj (Option.some.inj (stands.symm.trans linked))
          -- The walk to the file goes through the link, so the link leads to the file.
          rw [walk, advance_of_admits ⟨name.plain, by simp, short⟩, stands] at walked
          cases fewer with
          | zero => cases walked
          | succ fewer =>
              simp only [reduceCtorEq, and_false, if_false, List.append_nil] at walked
              cases walk_eq_of_ok walked toDirectory

end FileTree

end PatchShelf
