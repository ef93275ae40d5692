/-
Module: PatchShelf.Proofs.FileTree.Walk
Purpose: What a walk depends on, and how it goes on behind a directory.
Main exports:
  Entry.isWay, Spot.location, FileTree.KeepsWays, FileTree.walk_of_keepsWays,
  FileTree.spotIn, FileTree.walk_singleton, FileTree.walk_target_of_spot,
  FileTree.exists_walk_append
-/
import PatchShelf.Proofs.FileTree.Stride

/-!
On its way a walk passes directories and links only, the ways of a tree.  So it ends
at the same place in every tree that keeps the ways, whatever happens to files
elsewhere.  What is put where a walk ended is found by the same path.  And names that
follow those of a walk to a directory are walked from this directory.
-/

namespace PatchShelf

/-- Can a walk pass the entry? -/
def Entry.isWay : Entry → Bool
  | directory => true
  | file _ _ => false
  | link _ => true

/-- Is the entry a link? -/
def Entry.isLink : Entry → Bool
  | directory => false
  | file _ _ => false
  | link _ => true

/-- The location that a spot is about. -/
def Spot.location : Spot → Location
  | found location _ => location
  | missing directory name => name :: directory

/-- Is there a directory at the spot? -/
def Spot.isDirectory : Spot → Bool
  | found _ entry => entry.isDirectory
  | missing _ _ => false

/-- Does another tree show the same at the spot?  Ways are kept anyway. -/
def Spot.IsKept (new : FileTree) : Spot → Prop
  | found location entry => entry.isWay = true ∨ new.get? location = some entry
  | missing directory name => new.get? (name :: directory) = none

/-- Does another tree show the same where the stride ends? -/
def Stride.IsKept (new : FileTree) : Stride → Prop
  | ended spot => spot.IsKept new
  | linked _ _ _ => True

namespace FileTree

/-- Every directory and every link of the old tree stands in the new one. -/
def KeepsWays (old new : FileTree) : Prop :=
  ∀ location entry, old.get? location = some entry → entry.isWay = true →
    new.get? location = some entry

namespace KeepsWays

/-- Every tree keeps its own ways. -/
theorem refl (tree : FileTree) : KeepsWays tree tree :=
  fun _ _ stands _ => stands

/-- What is kept twice is kept. -/
theorem trans {first second third : FileTree} (one : KeepsWays first second)
    (two : KeepsWays second third) : KeepsWays first third :=
  fun location entry stands way => two location entry (one location entry stands way) way

end KeepsWays

/-- Is there no way at a location? -/
def NoWay (tree : FileTree) (location : Location) : Prop :=
  ∀ entry, tree.get? location = some entry → entry.isWay = false

/-- There is always a way through the root. -/
theorem ne_root_of_noWay {tree : FileTree} {location : Location}
    (noWay : tree.NoWay location) : location ≠ [] := by
  rintro rfl
  exact absurd (noWay .directory rfl) (by decide)

/-- Where there is no way in the new tree, there was none in the old one. -/
theorem NoWay.of_keepsWays {old new : FileTree} {location : Location}
    (noWay : new.NoWay location) (keeps : KeepsWays old new) : old.NoWay location := by
  intro entry stands
  cases way : entry.isWay with
  | false => rfl
  | true => exact way.symm.trans (noWay entry (keeps location entry stands way))

/-- What is put where there is no way is in nobody's way. -/
theorem keepsWays_put {tree : FileTree} {location : Location} (entry : Entry)
    (noWay : tree.NoWay location) : KeepsWays tree (tree.put location entry) := by
  intro other old stands way
  rw [get?_put _ _ _ _ (ne_root_of_noWay noWay)]
  by_cases same : other = location
  · rw [same] at stands
    exact absurd (noWay old stands) (by simp [way])
  · rw [if_neg same]
    exact stands

/-- An entry through which there is no way can be taken away without changing a way. -/
theorem keepsWays_remove {tree : FileTree} {location : Location}
    (noWay : tree.NoWay location) : KeepsWays tree (tree.remove location) := by
  intro other old stands way
  rw [get?_remove _ _ _ (ne_root_of_noWay noWay)]
  by_cases same : other = location
  · rw [same] at stands
    exact absurd (noWay old stands) (by simp [way])
  · rw [if_neg same]
    exact stands

/-! ### Walking in another tree -/

/-- Directories that were walked through are walked through again. -/
theorem Traverses.of_keepsWays {old new : FileTree} (keeps : KeepsWays old new) {aim : WalkAim}
    {directory place : Location} {names left : List FileName}
    (passed : old.Traverses aim place left directory names) :
    new.Traverses aim place left directory names :=
  passed.of_directories fun _ stands => keeps _ _ stands rfl

/-- A walk comes to the same end if that is kept as well. -/
theorem advance_of_keepsWays {old new : FileTree} (keeps : KeepsWays old new) {aim : WalkAim}
    {directory : Location} {names : List FileName} {stride : Stride}
    (walked : old.advance aim directory names = .ok stride) (kept : stride.IsKept new) :
    new.advance aim directory names = .ok stride := by
  obtain ⟨place, left, passed, halted⟩ := advance_eq_ok_iff.1 walked
  refine advance_eq_ok_iff.2 ⟨place, left, passed.of_keepsWays keeps, ?_⟩
  cases halted with
  | arrived => exact .arrived
  | file admitted stands =>
      refine .file admitted ?_
      simpa [Stride.IsKept, Spot.IsKept, Entry.isWay] using kept
  | link admitted stands itself => exact .link admitted (keeps _ _ stands rfl) itself
  | linked admitted stands follows => exact .linked admitted (keeps _ _ stands rfl) follows
  | missing admitted absent => exact .missing admitted kept

/-- A walk ends at the same spot in a tree that keeps the ways and shows the same there. -/
theorem walk_of_keepsWays {old new : FileTree} (keeps : KeepsWays old new) {aim : WalkAim}
    {links : Nat} {directory : Location} {names : List FileName} {spot : Spot}
    (walked : old.walk aim links directory names = .ok spot) (kept : spot.IsKept new) :
    new.walk aim links directory names = .ok spot := by
  fun_induction old.walk aim links directory names with
  | case1 => simp at walked
  | case2 links directory names found strode =>
      obtain rfl := Except.ok.inj walked
      rw [walk, advance_of_keepsWays keeps strode kept]
  | case3 => simp at walked
  | case4 directory names place target rest strode fewer ih =>
      rw [walk, advance_of_keepsWays keeps strode trivial]
      exact ih walked

/-! ### One name -/

/-- Where a walk of one name ends that follows no link. -/
def spotIn (tree : FileTree) (directory : Location) (name : FileName) : Spot :=
  match tree.get? (name :: directory) with
  | some entry => .found (name :: directory) entry
  | none => .missing directory name

/-- An entry of a directory is found by its name. -/
theorem spotIn_of_some {tree : FileTree} {directory : Location} {name : FileName} {entry : Entry}
    (stands : tree.get? (name :: directory) = some entry) :
    tree.spotIn directory name = .found (name :: directory) entry := by
  rw [spotIn, stands]

/-- A name that is missing is told with the directory in which it is. -/
theorem spotIn_of_none {tree : FileTree} {directory : Location} {name : FileName}
    (absent : tree.get? (name :: directory) = none) :
    tree.spotIn directory name = .missing directory name := by
  rw [spotIn, absent]

/-- The last name is looked up, and followed no further. -/
theorem advance_singleton {tree : FileTree} {aim : WalkAim} {directory : Location}
    {name : FileName} (admitted : Admits aim name [])
    (noLink : aim = .entry ∨ ∀ target, tree.get? (name :: directory) ≠ some (.link target)) :
    tree.advance aim directory [name] = .ok (.ended (tree.spotIn directory name)) := by
  refine advance_eq_ok_iff.2 ?_
  cases stands : tree.get? (name :: directory) with
  | none => exact ⟨_, _, .here, spotIn_of_none stands ▸ .missing admitted stands⟩
  | some entry =>
      rw [spotIn_of_some stands]
      cases entry with
      | directory => exact ⟨_, _, .down admitted stands .here, .arrived⟩
      | file content modified => exact ⟨_, _, .here, .file admitted stands⟩
      | link target =>
          have itself : aim = .entry := noLink.resolve_right fun never => never target stands
          exact ⟨_, _, .here, .link admitted stands itself⟩

/-- A plain name leads to the entry that bears it, or beside its place. -/
theorem walk_singleton {tree : FileTree} {aim : WalkAim} {links : Nat} {directory : Location}
    {name : FileName} (plain : name.IsPlain)
    (noLink : aim = .entry ∨ ∀ target, tree.get? (name :: directory) ≠ some (.link target)) :
    tree.walk aim links directory [name] =
      if longestName < name.length then .error .nameTooLong
      else .ok (tree.spotIn directory name) := by
  have allowed : ¬ (aim = .writing ∧ asksForDirectory [] = true) := by simp [asksForDirectory]
  rw [walk]
  by_cases long : longestName < name.length
  · rw [advance_of_long plain allowed long, if_pos long]
  · rw [advance_singleton ⟨plain, allowed, Nat.not_lt.1 long⟩ noLink, if_neg long]

/-! ### Finding what was put where a walk ended -/

/-- A link that was met on the way is met again, whatever is looked for. -/
theorem advance_target_of_linked {old new : FileTree} (keeps : KeepsWays old new)
    {aim : WalkAim} {directory place : Location} {names rest : List FileName} {target : Bytes}
    (walked : old.advance aim directory names = .ok (.linked place target rest)) :
    new.advance .target directory names = .ok (.linked place target rest) := by
  obtain ⟨_, left, passed, halted⟩ := advance_eq_ok_iff.1 walked
  have onward : new.Traverses .target _ _ _ _ := (passed.of_keepsWays keeps).reading (by decide)
  cases halted with
  | linked admitted stands follows =>
      have again : Admits .target _ rest := admitted.reading (by decide) rest
      exact advance_eq_ok_iff.2 ⟨_, _, onward, .linked again (keeps _ _ stands rfl) (by simp)⟩

/-- What stands where the walk ended is then found by the same names. -/
theorem advance_target_of_spot {old new : FileTree} (keeps : KeepsWays old new)
    {aim : WalkAim} {directory : Location} {names : List FileName} {spot : Spot} {entry : Entry}
    (walked : old.advance aim directory names = .ok (.ended spot))
    (noDirectory : spot.isDirectory = false) (stands : new.get? spot.location = some entry)
    (noLink : entry.isLink = false) :
    new.advance .target directory names = .ok (.ended (.found spot.location entry)) := by
  obtain ⟨place, left, passed, halted⟩ := advance_eq_ok_iff.1 walked
  have onward : new.Traverses .target _ _ _ _ := (passed.of_keepsWays keeps).reading (by decide)
  -- A stride that does not end at a directory has one name left, which leads to the entry.
  have named {name : FileName} (admitted : Admits aim name [])
      (stands : new.get? (name :: place) = some entry) :
      new.advance .target place [name] = .ok (.ended (.found (name :: place) entry)) := by
    rw [← spotIn_of_some stands]
    refine advance_singleton (admitted.reading (by decide) []) (.inr fun target linked => ?_)
    obtain rfl := Option.some.inj (stands.symm.trans linked)
    cases noLink
  rw [onward.advance_eq]
  cases halted with
  | arrived => cases noDirectory
  | file admitted _ => exact named admitted stands
  | link admitted _ _ => exact named admitted stands
  | missing admitted _ => exact named admitted stands

/-- What stands in the new tree where a walk of the old one ended is what the same names
lead to. -/
theorem walk_target_of_spot {old new : FileTree} (keeps : KeepsWays old new) {aim : WalkAim}
    {links : Nat} {directory : Location} {names : List FileName} {spot : Spot} {entry : Entry}
    (walked : old.walk aim links directory names = .ok spot)
    (noDirectory : spot.isDirectory = false) (stands : new.get? spot.location = some entry)
    (noLink : entry.isLink = false) :
    new.walk .target links directory names = .ok (.found spot.location entry) := by
  fun_induction old.walk aim links directory names with
  | case1 => simp at walked
  | case2 links directory names found strode =>
      obtain rfl := Except.ok.inj walked
      rw [walk, advance_target_of_spot keeps strode noDirectory stands noLink]
  | case3 => simp at walked
  | case4 directory names place target rest strode fewer ih =>
      rw [walk, advance_target_of_linked keeps strode]
      exact ih walked

/-! ### What stands where a walk ends

Going up from a directory leads to a directory only if entries stand in directories
to begin with.
-/

/-- Every entry stands in a directory. -/
def Grounded (tree : FileTree) : Prop :=
  ∀ name directory, tree.get? (name :: directory) ≠ none →
    tree.get? directory = some .directory

/-- Nothing stands in what is no directory. -/
theorem Grounded.get?_child_of_ne {tree : FileTree} (grounded : tree.Grounded)
    {directory : Location} (other : tree.get? directory ≠ some .directory) (name : FileName) :
    tree.get? (name :: directory) = none := by
  cases stands : tree.get? (name :: directory) with
  | none => rfl
  | some entry => exact absurd (grounded name directory (by simp [stands])) other

/-- Above a directory there is a directory. -/
theorem Grounded.tail {tree : FileTree} (grounded : tree.Grounded) {directory : Location}
    (stands : tree.get? directory = some .directory) :
    tree.get? directory.tail = some .directory := by
  cases directory with
  | nil => rfl
  | cons name above =>
      refine grounded name above ?_
      rw [stands]
      simp

/-- A tree stays grounded if an entry is put into a directory that is there. -/
theorem Grounded.put {tree : FileTree} (grounded : tree.Grounded) {name : FileName}
    {directory : Location} (entry : Entry) (noWay : tree.NoWay (name :: directory))
    (above : tree.get? directory = some .directory) :
    (tree.put (name :: directory) entry).Grounded := by
  intro other place stands
  have apart : ∀ location, tree.get? location = some .directory →
      location ≠ name :: directory := by
    rintro location isDirectory rfl
    exact absurd (noWay _ isDirectory) (by decide)
  have parent : tree.get? place = some .directory := by
    rw [get?_put _ _ _ _ (List.cons_ne_nil _ _)] at stands
    split at stands
    · rename_i same
      obtain ⟨-, rfl⟩ := List.cons.inj same
      exact above
    · exact grounded other place stands
  rw [get?_put _ _ _ _ (List.cons_ne_nil _ _), if_neg (apart place parent)]
  exact parent

/-- A tree stays grounded if an entry is taken away through which there is no way. -/
theorem Grounded.remove {tree : FileTree} (grounded : tree.Grounded) {location : Location}
    (noWay : tree.NoWay location) : (tree.remove location).Grounded := by
  intro other place stands
  have parent : tree.get? place = some .directory := by
    rw [get?_remove _ _ _ (ne_root_of_noWay noWay)] at stands
    split at stands
    · exact absurd rfl stands
    · exact grounded other place stands
  exact keepsWays_remove noWay place .directory parent rfl

/-- Does the tree hold what the spot says? -/
def Holds (tree : FileTree) : Spot → Prop
  | .found location entry => tree.get? location = some entry
  | .missing directory name =>
    tree.get? (name :: directory) = none ∧ tree.get? directory = some .directory

/-- Does the tree hold what the end of the stride says? -/
def HoldsEnd (tree : FileTree) : Stride → Prop
  | .ended spot => tree.Holds spot
  | .linked directory _ _ => tree.get? directory = some .directory

/-- A walk from a directory is in a directory as long as it goes on. -/
theorem Traverses.stands {tree : FileTree} (grounded : tree.Grounded) {aim : WalkAim}
    {directory place : Location} {names left : List FileName}
    (passed : tree.Traverses aim place left directory names)
    (start : tree.get? directory = some .directory) : tree.get? place = some .directory := by
  induction passed with
  | here => exact start
  | stay stays onward ih => exact ih start
  | up onward ih => exact ih (grounded.tail start)
  | down admitted stands onward ih => exact ih stands

/-- From a directory, names lead to what stands in the tree, or to a gap in a directory. -/
theorem holds_of_advance {tree : FileTree} (grounded : tree.Grounded) {aim : WalkAim}
    {directory : Location} {names : List FileName} {stride : Stride}
    (start : tree.get? directory = some .directory)
    (walked : tree.advance aim directory names = .ok stride) : tree.HoldsEnd stride := by
  obtain ⟨place, left, passed, halted⟩ := advance_eq_ok_iff.1 walked
  have here : tree.get? place = some .directory := passed.stands grounded start
  cases halted with
  | arrived => exact here
  | file admitted stands => exact stands
  | link admitted stands itself => exact stands
  | linked admitted stands follows => exact here
  | missing admitted absent => exact ⟨absent, here⟩

theorem startOf_stands {tree : FileTree} {directory : Location} (path : Bytes)
    (stands : tree.get? directory = some .directory) :
    tree.get? (startOf directory path) = some .directory := by
  rw [startOf]
  split
  · rfl
  · exact stands

/-- By induction on the links that may be followed, a whole walk ends at what holds in the tree. -/
theorem holds_of_walk {tree : FileTree} (grounded : tree.Grounded) {aim : WalkAim}
    {links : Nat} {directory : Location} {names : List FileName} {spot : Spot}
    (start : tree.get? directory = some .directory)
    (walked : tree.walk aim links directory names = .ok spot) : tree.Holds spot := by
  fun_induction tree.walk aim links directory names with
  | case1 => simp at walked
  | case2 links directory names found strode =>
      obtain rfl := Except.ok.inj walked
      exact holds_of_advance grounded start strode
  | case3 => simp at walked
  | case4 directory names place target rest strode fewer ih =>
      have stands : tree.get? place = some .directory := holds_of_advance grounded start strode
      exact ih (startOf_stands target stands) walked

/-! ### Walking on behind a directory -/

/-- Do names ask for more than the directory in front of them? -/
def goesOn (names : List FileName) : Bool :=
  !names.all List.isEmpty

theorem goesOn_cons {name : FileName} (plain : name.IsPlain) (names : List FileName) :
    goesOn (name :: names) = true := by
  have moves := plain.moves
  simp only [staysHere, Bool.or_eq_false_iff] at moves
  simp [goesOn, moves.1]

/-- Whether the last name has to be a directory is decided by what comes last. -/
theorem asksForDirectory_append (names : List FileName) {rest : List FileName}
    (onward : goesOn rest = true) : asksForDirectory (names ++ rest) = false := by
  simp only [goesOn, Bool.not_eq_true'] at onward
  simp [asksForDirectory, List.all_append, onward]

theorem append_ne_nil_of_goesOn (names : List FileName) {rest : List FileName}
    (onward : goesOn rest = true) : names ++ rest ≠ [] := by
  intro empty
  rw [(List.append_eq_nil_iff.1 empty).2] at onward
  exact absurd onward (by decide)

/-- If more names follow, it does not matter what is looked for at the end. -/
theorem Admits.of_goesOn {aim other : WalkAim} {name : FileName} {names rest : List FileName}
    (admitted : Admits aim name names) (onward : goesOn rest = true) :
    Admits other name (names ++ rest) :=
  admitted.of_allowed (by simp [asksForDirectory_append names onward])

/-- With names behind them that go on, the same directories are passed whatever the aim. -/
theorem Traverses.append {tree : FileTree} (aim : WalkAim) {directory place : Location}
    {names left rest : List FileName} (onward : goesOn rest = true)
    (passed : tree.Traverses .target place left directory names) :
    tree.Traverses aim place (left ++ rest) directory (names ++ rest) := by
  induction passed with
  | here => exact .here
  | stay stays _ ih => exact .stay stays ih
  | up _ ih => exact .up ih
  | down admitted stands _ ih =>
      exact .down (admitted.of_goesOn onward) stands ih

/-- Names that lead to a directory can be walked first, and the others from there. -/
theorem advance_append {tree : FileTree} (aim : WalkAim) {directory place : Location}
    {names rest : List FileName} (onward : goesOn rest = true)
    (walked : tree.advance .target directory names = .ok (.ended (.found place .directory))) :
    tree.advance aim directory (names ++ rest) = tree.advance aim place rest := by
  obtain ⟨_, left, passed, halted⟩ := advance_eq_ok_iff.1 walked
  cases halted with
  | arrived => exact (passed.append aim onward).advance_eq

/-- A link that stops the walk takes the names behind it along. -/
theorem advance_append_linked {tree : FileTree} (aim : WalkAim) {directory place : Location}
    {names rest more : List FileName} {target : Bytes} (onward : goesOn rest = true)
    (walked : tree.advance .target directory names = .ok (.linked place target more)) :
    tree.advance aim directory (names ++ rest) = .ok (.linked place target (more ++ rest)) := by
  obtain ⟨_, left, passed, halted⟩ := advance_eq_ok_iff.1 walked
  cases halted with
  | linked admitted stands follows =>
      refine advance_eq_ok_iff.2 ⟨_, _, passed.append aim onward, ?_⟩
      exact .linked (admitted.of_goesOn onward) stands
        fun last => append_ne_nil_of_goesOn more onward last.1

/-- Names behind those of a walk to a directory are walked from that directory, with
the links that are left. -/
theorem exists_walk_append {tree : FileTree} (aim : WalkAim) {links : Nat}
    {directory place : Location} {names rest : List FileName} (onward : goesOn rest = true)
    (walked : tree.walk .target links directory names = .ok (.found place .directory)) :
    ∃ fewer, tree.walk aim links directory (names ++ rest) = tree.walk aim fewer place rest := by
  generalize aimed : WalkAim.target = targeted at walked
  fun_induction tree.walk targeted links directory names with
  | case1 => simp at walked
  | case2 links directory names found strode =>
      obtain rfl := Except.ok.inj walked
      rw [← aimed] at strode
      refine ⟨links, ?_⟩
      rw [walk, advance_append aim onward strode, walk.eq_def tree aim links place]
  | case3 => simp at walked
  | case4 directory names place target more strode fewer ih =>
      obtain ⟨left, same⟩ := ih walked
      rw [← aimed] at strode
      refine ⟨left, ?_⟩
      rw [walk, advance_append_linked aim onward strode, ← same, List.append_assoc]

end FileTree

end PatchShelf
