/-
Module: PatchShelf.Proofs.FileTree.Stride
Purpose: What a walk passes before it ends or meets a link, as two relations.
Main exports:
  FileName.IsPlain, FileTree.Admits, FileTree.advance_of_admits, FileTree.Traverses,
  FileTree.Halts, FileTree.advance_eq_ok_iff
-/
import PatchShelf.FileTree.Walk

/-!
As long as it follows no link, a walk passes one directory after the other, and then
comes to a name that it does not pass: a file, a link, or none at all.  `Traverses` is the
way through the directories, and `Halts` is what happens at its end.  Together they say
all that a successful stride can be, so what a stride keeps or needs is shown for the four
ways to go on and the five ways to halt.
-/

namespace PatchShelf

/-- A name that neither stays in a directory nor leads out of it. -/
structure FileName.IsPlain (name : FileName) : Prop where
  moves : FileTree.staysHere name = false
  descends : name ≠ FileTree.upName

namespace FileTree

variable {tree : FileTree} {aim : WalkAim} {directory place : Location} {name : FileName}
  {names rest left : List FileName} {stride : Stride}

/-! ### Names that are looked up -/

theorem advance_of_long (plain : name.IsPlain)
    (allowed : ¬ (aim = .writing ∧ asksForDirectory rest = true))
    (long : longestName < name.length) :
    tree.advance aim directory (name :: rest) = .error .nameTooLong := by
  rw [advance, if_neg (by simp [plain.moves]), if_neg plain.descends, if_neg allowed, if_pos long]

theorem advance_up (tree : FileTree) (aim : WalkAim) (directory : Location)
    (rest : List FileName) :
    tree.advance aim directory (upName :: rest) = tree.advance aim directory.tail rest := by
  rw [advance, if_neg (by decide), if_pos rfl]

/-- A walk may look the name up, with these names behind it. -/
structure Admits (aim : WalkAim) (name : FileName) (rest : List FileName) : Prop
    extends FileName.IsPlain name where
  allowed : ¬ (aim = .writing ∧ asksForDirectory rest = true)
  short : name.length ≤ longestName

/-- Other names may follow, and the walk may have another aim, as long as nothing that is to
be written has to be a directory. -/
theorem Admits.of_allowed (admitted : Admits aim name rest) {other : WalkAim}
    {more : List FileName} (allowed : ¬ (other = .writing ∧ asksForDirectory more = true)) :
    Admits other name more :=
  ⟨admitted.toIsPlain, allowed, admitted.short⟩

theorem Admits.reading (admitted : Admits aim name rest) {other : WalkAim}
    (reads : other ≠ .writing) (more : List FileName) : Admits other name more :=
  admitted.of_allowed fun both => reads both.1

/-- Such a name is looked up in its directory. -/
theorem advance_of_admits (admitted : Admits aim name rest) :
    tree.advance aim directory (name :: rest) =
      match tree.get? (name :: directory) with
      | some .directory => tree.advance aim (name :: directory) rest
      | some (.file content modified) =>
        if rest = [] then .ok (.ended (.found (name :: directory) (.file content modified)))
        else .error .notDirectory
      | some (.link target) =>
        if rest = [] ∧ aim = .entry then
          .ok (.ended (.found (name :: directory) (.link target)))
        else .ok (.linked directory target rest)
      | none =>
        if rest = [] then .ok (.ended (.missing directory name)) else .error .notFound := by
  have moves : ¬ staysHere name = true := by simp [admitted.moves]
  rw [advance, if_neg moves, if_neg admitted.descends, if_neg admitted.allowed]
  exact if_neg (Nat.not_lt.2 admitted.short)

/-! ### Passing directories -/

/-- From a directory with names to walk, a walk passes directories only, to the place where
some of the names are left. -/
inductive Traverses (tree : FileTree) (aim : WalkAim) (place : Location)
    (left : List FileName) : Location → List FileName → Prop
  | here : Traverses tree aim place left place left
  | stay {directory : Location} {name : FileName} {rest : List FileName}
      (stays : staysHere name = true) (onward : Traverses tree aim place left directory rest) :
      Traverses tree aim place left directory (name :: rest)
  | up {directory : Location} {rest : List FileName}
      (onward : Traverses tree aim place left directory.tail rest) :
      Traverses tree aim place left directory (upName :: rest)
  | down {directory : Location} {name : FileName} {rest : List FileName}
      (admitted : Admits aim name rest)
      (stands : tree.get? (name :: directory) = some .directory)
      (onward : Traverses tree aim place left (name :: directory) rest) :
      Traverses tree aim place left directory (name :: rest)

namespace Traverses

/-- A walk goes on from the place as if it had started there. -/
theorem advance_eq (passed : tree.Traverses aim place left directory names) :
    tree.advance aim directory names = tree.advance aim place left := by
  induction passed with
  | here => rfl
  | stay stays onward ih => rw [advance, if_pos stays, ih]
  | up onward ih => rw [advance_up, ih]
  | down admitted stands onward ih =>
      rw [advance_of_admits admitted, stands]
      exact ih

/-- The way is the same in a tree that has the directories of the first one. -/
theorem of_directories (passed : tree.Traverses aim place left directory names) {new : FileTree}
    (keeps : ∀ location, tree.get? location = some .directory →
      new.get? location = some .directory) :
    new.Traverses aim place left directory names := by
  induction passed with
  | here => exact .here
  | stay stays onward ih => exact .stay stays ih
  | up onward ih => exact .up ih
  | down admitted stands onward ih => exact .down admitted (keeps _ stands) ih

/-- A walk that writes nothing goes the same way. -/
theorem reading (passed : tree.Traverses aim place left directory names) {other : WalkAim}
    (reads : other ≠ .writing) : tree.Traverses other place left directory names := by
  induction passed with
  | here => exact .here
  | stay stays onward ih => exact .stay stays ih
  | up onward ih => exact .up ih
  | down admitted stands onward ih => exact .down (admitted.reading reads _) stands ih

end Traverses

/-! ### Where the directories end -/

/-- What a walk comes to that passes none of the names that are left. -/
inductive Halts (tree : FileTree) (aim : WalkAim) (place : Location) :
    List FileName → Stride → Prop
  | arrived : Halts tree aim place [] (.ended (.found place .directory))
  | file {name : FileName} {content : Bytes} {modified : FileTime}
      (admitted : Admits aim name [])
      (stands : tree.get? (name :: place) = some (.file content modified)) :
      Halts tree aim place [name] (.ended (.found (name :: place) (.file content modified)))
  | link {name : FileName} {target : Bytes} (admitted : Admits aim name [])
      (stands : tree.get? (name :: place) = some (.link target)) (itself : aim = .entry) :
      Halts tree aim place [name] (.ended (.found (name :: place) (.link target)))
  | linked {name : FileName} {rest : List FileName} {target : Bytes}
      (admitted : Admits aim name rest)
      (stands : tree.get? (name :: place) = some (.link target))
      (follows : ¬ (rest = [] ∧ aim = .entry)) :
      Halts tree aim place (name :: rest) (.linked place target rest)
  | missing {name : FileName} (admitted : Admits aim name [])
      (absent : tree.get? (name :: place) = none) :
      Halts tree aim place [name] (.ended (.missing place name))

theorem Halts.advance_eq (halted : tree.Halts aim place left stride) :
    tree.advance aim place left = .ok stride := by
  cases halted with
  | arrived => rfl
  | file admitted stands =>
      rw [advance_of_admits admitted, stands]
      rfl
  | link admitted stands itself =>
      rw [advance_of_admits admitted, stands]
      exact if_pos ⟨rfl, itself⟩
  | linked admitted stands follows =>
      rw [advance_of_admits admitted, stands]
      exact if_neg follows
  | missing admitted absent =>
      rw [advance_of_admits admitted, absent]
      rfl

/-- A stride goes through directories until it halts. -/
theorem advance_eq_ok_iff :
    tree.advance aim directory names = .ok stride ↔ ∃ place left,
      tree.Traverses aim place left directory names ∧ tree.Halts aim place left stride := by
  constructor
  · intro walked
    -- Four cases pass a name and four halt; the others are refused.
    fun_induction tree.advance aim directory names with
    | case1 directory =>
        obtain rfl := Except.ok.inj walked
        exact ⟨directory, [], .here, .arrived⟩
    | case2 directory name rest stays ih =>
        obtain ⟨place, left, passed, halted⟩ := ih walked
        exact ⟨place, left, .stay stays passed, halted⟩
    | case3 directory rest moves ih =>
        obtain ⟨place, left, passed, halted⟩ := ih walked
        exact ⟨place, left, .up passed, halted⟩
    | case4 => cases walked
    | case5 => cases walked
    | case6 directory name rest moves descends allowed short stands ih =>
        obtain ⟨place, left, passed, halted⟩ := ih walked
        have admitted : Admits aim name rest :=
          ⟨⟨by simpa using moves, descends⟩, allowed, Nat.not_lt.1 short⟩
        exact ⟨place, left, .down admitted stands passed, halted⟩
    | case7 directory name moves descends short content modified stands allowed =>
        obtain rfl := Except.ok.inj walked
        exact ⟨directory, _, .here,
          .file ⟨⟨by simpa using moves, descends⟩, allowed, Nat.not_lt.1 short⟩ stands⟩
    | case8 => cases walked
    | case9 directory name rest moves descends allowed short target stands last =>
        obtain rfl := Except.ok.inj walked
        obtain ⟨rfl, itself⟩ := last
        exact ⟨directory, _, .here,
          .link ⟨⟨by simpa using moves, descends⟩, allowed, Nat.not_lt.1 short⟩ stands itself⟩
    | case10 directory name rest moves descends allowed short target stands follows =>
        obtain rfl := Except.ok.inj walked
        exact ⟨directory, _, .here,
          .linked ⟨⟨by simpa using moves, descends⟩, allowed, Nat.not_lt.1 short⟩ stands follows⟩
    | case11 directory name moves descends short absent allowed =>
        obtain rfl := Except.ok.inj walked
        exact ⟨directory, _, .here,
          .missing ⟨⟨by simpa using moves, descends⟩, allowed, Nat.not_lt.1 short⟩ absent⟩
    | case12 => cases walked
  · rintro ⟨place, left, passed, halted⟩
    exact passed.advance_eq.trans halted.advance_eq

end FileTree

end PatchShelf
