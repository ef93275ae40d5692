/-
Module: PatchShelf.Proofs.Arguments.AbsoluteTargets
Purpose: Targets become absolute paths in normal form, and normal forms stay.
Main exports:
  Path.IsNormalForm, Path.isNormalForm_toText, Path.exists_path_of_isNormalForm, Path.Moves,
  Path.moves_normalize, Arguments.Absolutized, Arguments.Absolutized.unique,
  Arguments.absolutizeOne_eq_self_iff, Arguments.absolutize_normalForms
-/
import Mathlib.Data.List.Forall2
import Mathlib.Data.List.TakeWhile
import PatchShelf.Arguments
import PatchShelf.Proofs.NormalForm

/-!
What a target becomes is said in two ways.  As a text it is a normal form: one slash or
two in front, and behind them components with one slash between neighbours, none of them
empty, a dot or two dots.  As a path it is where the components of the root directory and
of the target lead from the top, when they are taken one by one and `..` goes back by
one, or stays at the top.  Both together leave no choice.  The normal forms are just the
texts that come out unchanged, in whatever absolute directory they are read.
-/

namespace PatchShelf

namespace Path

theorem eq_of_fields {path other : Path} (anchor : path.anchor = other.anchor)
    (parts : path.parts = other.parts) : path = other := by
  cases path
  cases other
  rw [mk.injEq]
  exact ⟨anchor, parts⟩

/-! ### Normal forms as texts -/

/-- The text is an absolute path in normal form.  Behind its leading slashes, if anything
stands there, no component is empty, a dot or two dots. -/
structure IsNormalForm (text : Text) : Prop where
  rooted : text.head? = some (.char '/')
  slashes : (text.takeWhile (·.isChar '/')).length ≤ 2
  named : text.dropWhile (·.isChar '/') ≠ [] →
    ∀ part ∈ Text.splitOn '/' (text.dropWhile (·.isChar '/')),
      part ≠ [] ∧ part ≠ here ∧ part ≠ up
  trimmed : text.getLast? = some (.char '/') → ∀ glyph ∈ text, glyph = .char '/'

/-- A component that a normal form may hold. -/
def IsPlain (part : Text) : Prop :=
  IsPart part ∧ part ≠ up

theorem mem_anchor {anchor : Anchor} {glyph : Glyph} (member : glyph ∈ anchor.toText) :
    glyph = .char '/' := by
  have slashes : ∀ glyph ∈ anchor.toText, glyph = .char '/' := by cases anchor <;> decide
  exact slashes glyph member

theorem toText_of_isAbsolute {path : Path} (absolute : path.isAbsolute = true) :
    path.toText = path.anchor.toText ++ Text.joinWith [.char '/'] path.parts := by
  have anchored : path.anchor ≠ .relative := by simpa [isAbsolute] using absolute
  exact if_neg fun bare => anchored bare.1

theorem splits_of_head_ne {text : Text} (other : text.head? ≠ some (.char '/')) :
    text.takeWhile (·.isChar '/') = [] ∧ text.dropWhile (·.isChar '/') = text := by
  cases text with
  | nil => exact ⟨rfl, rfl⟩
  | cons glyph rest =>
      have notSlash : glyph.isChar '/' = false := by simpa [Glyph.isChar] using other
      exact ⟨List.takeWhile_cons_of_neg (by simp [notSlash]),
        List.dropWhile_cons_of_neg (by simp [notSlash])⟩

section Written

variable {path : Path} (absolute : path.isAbsolute = true)

include absolute

/-- The slashes in front of a path that was written are those of its anchor. -/
theorem splits_toText (valid : ∀ part ∈ path.parts, IsPart part) :
    path.toText.takeWhile (·.isChar '/') = path.anchor.toText ∧
      path.toText.dropWhile (·.isChar '/') = Text.joinWith [.char '/'] path.parts := by
  have slashes : ∀ glyph ∈ path.anchor.toText, glyph.isChar '/' = true := by
    intro glyph member
    rw [mem_anchor member]
    rfl
  obtain ⟨none, all⟩ := splits_of_head_ne (head_joinWith_ne valid)
  rw [toText_of_isAbsolute absolute, List.takeWhile_append_of_pos slashes,
    List.dropWhile_append_of_pos slashes]
  exact ⟨(congrArg _ none).trans (List.append_nil _), all⟩

/-- A path with components ends in the last glyph of the last one. -/
theorem getLast?_toText_ne (valid : ∀ part ∈ path.parts, IsPart part) (filled : path.parts ≠ []) :
    path.toText.getLast? ≠ some (.char '/') := by
  obtain ⟨lead, shown⟩ := Text.exists_joinWith_eq_append [.char '/'] filled
  have isPart := valid _ (List.getLast_mem filled)
  rw [toText_of_isAbsolute absolute, shown, List.getLast?_append, List.getLast?_append,
    List.getLast?_eq_some_getLast isPart.nonempty, Option.some_or, Option.some_or]
  intro same
  exact isPart.whole (Option.some.inj same ▸ List.getLast_mem isPart.nonempty)

/-- A path of plain components is written as a normal form. -/
theorem isNormalForm_toText (plain : ∀ part ∈ path.parts, IsPlain part) :
    IsNormalForm path.toText := by
  have valid : ∀ part ∈ path.parts, IsPart part := fun part member => (plain part member).1
  obtain ⟨taken, dropped⟩ := splits_toText absolute valid
  refine ⟨?_, ?_, ?_, ?_⟩
  · exact isAbsolute_ofText_iff.1 (by rw [ofText_toText absolute valid]; exact absolute)
  · rw [taken]
    cases path.anchor <;> decide
  · rw [dropped]
    intro filled part member
    have nonempty : path.parts ≠ [] := fun none => filled (by rw [none]; rfl)
    rw [Text.splitOn_joinWith nonempty fun part inside => (valid part inside).whole] at member
    obtain ⟨isPart, other⟩ := plain part member
    exact ⟨isPart.nonempty, isPart.moves, other⟩
  · intro ends glyph member
    have bare : path.parts = [] := by
      by_contra filled
      exact getLast?_toText_ne absolute valid filled ends
    rw [toText_of_isAbsolute absolute, bare] at member
    exact mem_anchor (by simpa [Text.joinWith] using member)

end Written

theorem exists_anchor_of_slashes {lead : Text} (slashes : ∀ glyph ∈ lead, glyph = .char '/')
    (filled : lead ≠ []) (few : lead.length ≤ 2) :
    ∃ anchor : Anchor, anchor ≠ .relative ∧ anchor.toText = lead := by
  have copies := List.eq_replicate_of_mem slashes
  have some := List.length_pos_iff.2 filled
  obtain one | two : lead.length = 1 ∨ lead.length = 2 := by omega
  · exact ⟨.root, by decide, by rw [copies, one]; rfl⟩
  · exact ⟨.doubleRoot, by decide, by rw [copies, two]; rfl⟩

/-- Every normal form is written from a path of plain components. -/
theorem exists_path_of_isNormalForm {text : Text} (normal : IsNormalForm text) :
    ∃ path : Path, path.isAbsolute = true ∧ (∀ part ∈ path.parts, IsPlain part) ∧
      path.toText = text := by
  have whole := List.takeWhile_append_dropWhile (p := fun glyph => glyph.isChar '/') (l := text)
  have slashes : ∀ glyph ∈ text.takeWhile (·.isChar '/'), glyph = .char '/' := by
    intro glyph member
    simpa [Glyph.isChar] using List.mem_takeWhile_imp member
  have filled : text.takeWhile (·.isChar '/') ≠ [] := by
    obtain ⟨rest, rfl⟩ := List.head?_eq_some_iff.1 normal.rooted
    rw [List.takeWhile_cons_of_pos (by decide)]
    exact List.cons_ne_nil _ _
  obtain ⟨anchor, anchored, shown⟩ := exists_anchor_of_slashes slashes filled normal.slashes
  have absolute (parts : List Text) : isAbsolute ⟨anchor, parts⟩ = true := by
    simpa [isAbsolute] using anchored
  -- Cutting an empty rest would give an empty component, so it is kept apart.
  by_cases bare : text.dropWhile (·.isChar '/') = []
  · refine ⟨⟨anchor, []⟩, absolute [], by simp, ?_⟩
    rw [toText_of_isAbsolute (absolute []), shown]
    rwa [bare] at whole
  · refine ⟨⟨anchor, Text.splitOn '/' (text.dropWhile (·.isChar '/'))⟩, absolute _, ?_, ?_⟩
    · intro part member
      obtain ⟨nonempty, moves, other⟩ := normal.named bare part member
      exact ⟨⟨nonempty, moves, Text.notMem_of_mem_splitOn member⟩, other⟩
    · rw [toText_of_isAbsolute (absolute _), Text.joinWith_splitOn, shown]
      exact whole

theorem IsNormalForm.toText_ofText {text : Text} (normal : IsNormalForm text) :
    (ofText text).toText = text := by
  obtain ⟨path, absolute, plain, rfl⟩ := exists_path_of_isNormalForm normal
  rw [ofText_toText absolute fun part member => (plain part member).1]

/-! ### Where components lead -/

/-- From the directory that the first components name, the second ones lead to the
directory that the third ones name; `..` leads back by one, and from the top nowhere. -/
inductive Moves : List Text → List Text → List Text → Prop where
  | stay (base : List Text) : Moves base [] base
  | down {base rest reached : List Text} {part : Text} (named : part ≠ up)
      (onward : Moves (base ++ [part]) rest reached) : Moves base (part :: rest) reached
  | back {base rest reached : List Text} (onward : Moves base.dropLast rest reached) :
      Moves base (up :: rest) reached

theorem Moves.unique {base parts reached other : List Text} (first : Moves base parts reached)
    (second : Moves base parts other) : reached = other := by
  induction first with
  | stay base => cases second; rfl
  | down named onward ih =>
      cases second with
      | down _ again => exact ih again
      | back _ => exact absurd rfl named
  | back onward ih =>
      cases second with
      | down named _ => exact absurd rfl named
      | back again => exact ih again

/-- The components on the stack are those that the others lead to, from where the stack was. -/
theorem moves_foldl (parts : List Text) {reversed : List Text} (free : up ∉ reversed) :
    Moves reversed.reverse parts (parts.foldl (pushPart true) reversed).reverse := by
  -- No `..` is ever on the stack, so each one that is read takes the top away, if there is one.
  induction parts generalizing reversed with
  | nil => exact .stay _
  | cons part rest ih =>
      rw [List.foldl_cons]
      by_cases upwards : part = up
      · rw [upwards, pushPart_up free]
        have onward := ih fun bad => free (List.mem_of_mem_tail bad)
        rw [← List.dropLast_reverse] at onward
        exact .back onward
      · rw [pushPart_of_ne upwards]
        have onward := @ih (part :: reversed) (by simp [Ne.symm upwards, free])
        rw [List.reverse_cons] at onward
        exact .down upwards onward

theorem moves_normalize {path : Path} (absolute : path.isAbsolute = true) :
    Moves [] path.parts path.normalize.parts := by
  rw [normalize_of_isAbsolute absolute]
  exact moves_foldl path.parts List.not_mem_nil

end Path

namespace Arguments

/-! ### Targets -/

/-- The result is what the target means in the root directory, in normal form.  An absolute
target is read from the top, any other one from the root directory on. -/
structure Absolutized (root target result : Text) : Prop where
  normal : Path.IsNormalForm result
  fromTop : target.head? = some (.char '/') →
    (Path.ofText result).anchor = (Path.ofText target).anchor ∧
      Path.Moves [] (Path.ofText target).parts (Path.ofText result).parts
  fromRoot : target.head? ≠ some (.char '/') →
    (Path.ofText result).anchor = (Path.ofText root).anchor ∧
      Path.Moves [] ((Path.ofText root).parts ++ (Path.ofText target).parts)
        (Path.ofText result).parts

/-- What a target means leaves no choice of the result. -/
theorem Absolutized.unique {root target result other : Text}
    (first : Absolutized root target result) (second : Absolutized root target other) :
    result = other := by
  have same : Path.ofText result = Path.ofText other := by
    by_cases slash : target.head? = some (.char '/')
    · obtain ⟨anchor, leads⟩ := first.fromTop slash
      obtain ⟨otherAnchor, otherLeads⟩ := second.fromTop slash
      exact Path.eq_of_fields (anchor.trans otherAnchor.symm) (leads.unique otherLeads)
    · obtain ⟨anchor, leads⟩ := first.fromRoot slash
      obtain ⟨otherAnchor, otherLeads⟩ := second.fromRoot slash
      exact Path.eq_of_fields (anchor.trans otherAnchor.symm) (leads.unique otherLeads)
  rw [← first.normal.toText_ofText, same, second.normal.toText_ofText]

section Rooted

variable {root : Text} (rooted : root.head? = some (.char '/'))

include rooted

theorem isAbsolute_read (target : Text) :
    (Path.ofText root / Path.ofText target).isAbsolute = true :=
  Path.isAbsolute_join (Path.isAbsolute_ofText_iff.2 rooted) _

theorem isPlain_read (target : Text) :
    ∀ part ∈ (Path.ofText root / Path.ofText target).normalize.parts, Path.IsPlain part := by
  intro part member
  obtain ⟨other, held⟩ := Path.mem_of_mem_normalize (isAbsolute_read rooted target) member
  exact ⟨Path.isPart_of_mem_join (fun _ => Path.isPart_of_mem_ofText) target part held, other⟩

/-- A result is read back as the normal form that it was written from. -/
theorem ofText_absolutizeOne (target : Text) :
    Path.ofText (absolutizeOne root target) =
      (Path.ofText root / Path.ofText target).normalize :=
  Path.ofText_toText (isAbsolute_read rooted target) fun part member =>
    (isPlain_read rooted target part member).1

theorem absolutized (target : Text) : Absolutized root target (absolutizeOne root target) := by
  have absolute := isAbsolute_read rooted target
  have leads := Path.moves_normalize absolute
  refine ⟨Path.isNormalForm_toText absolute (isPlain_read rooted target), ?_, ?_⟩
  · intro slash
    rw [ofText_absolutizeOne rooted]
    rw [Path.join_of_isAbsolute _ (Path.isAbsolute_ofText_iff.2 slash)] at leads ⊢
    exact ⟨rfl, leads⟩
  · intro other
    have relative : ¬ (Path.ofText target).isAbsolute = true :=
      fun slash => other (Path.isAbsolute_ofText_iff.1 slash)
    rw [ofText_absolutizeOne rooted]
    rw [Path.join_of_not_isAbsolute _ relative] at leads ⊢
    exact ⟨rfl, leads⟩

/-- The texts that are left as they are, are the normal forms. -/
theorem absolutizeOne_eq_self_iff (text : Text) :
    absolutizeOne root text = text ↔ Path.IsNormalForm text := by
  constructor
  · intro same
    exact same ▸ (absolutized rooted text).normal
  · intro normal
    obtain ⟨path, absolute, plain, rfl⟩ := Path.exists_path_of_isNormalForm normal
    have free : Path.up ∉ path.parts := fun member => (plain _ member).2 rfl
    rw [absolutizeOne, Path.ofText_toText absolute fun part member => (plain part member).1,
      Path.join_of_isAbsolute _ absolute, Path.normalize_of_free absolute free]

end Rooted

theorem absolutizeOne_of_slash {target : Text} (slash : target.head? = some (.char '/'))
    (root other : Text) : absolutizeOne other target = absolutizeOne root target := by
  have absolute := Path.isAbsolute_ofText_iff.2 slash
  rw [absolutizeOne, absolutizeOne, Path.join_of_isAbsolute _ absolute,
    Path.join_of_isAbsolute _ absolute]

/-- Targets that are read in an absolute directory become, each in its place, the normal form
of what it means there, and nothing else.  What becomes of an absolute target is the same in
any directory.  Made absolute once more, in any absolute directory, the results stay as they
are, like all normal forms and no other texts. -/
theorem absolutize_normalForms {root : Text} (rooted : root.head? = some (.char '/'))
    (targets : List Text) :
    (∀ results, List.Forall₂ (Absolutized root) targets results ↔
        results = absolutize targets root) ∧
      (∀ (other : Text) (index : Nat) (target : Text), targets[index]? = some target →
        target.head? = some (.char '/') →
          (absolutize targets other)[index]? = (absolutize targets root)[index]?) ∧
      (∀ other : Text, other.head? = some (.char '/') →
        absolutize (absolutize targets root) other = absolutize targets root ∧
          ∀ text, absolutize [text] other = [text] ↔ Path.IsNormalForm text) := by
  have meant : List.Forall₂ (Absolutized root) targets (absolutize targets root) := by
    rw [absolutize, List.forall₂_map_right_iff, List.forall₂_same]
    exact fun target _ => absolutized rooted target
  refine ⟨?_, ?_, ?_⟩
  · intro results
    constructor
    · intro others
      exact List.right_unique_forall₂' (fun _ _ _ first => first.unique) others meant
    · rintro rfl
      exact meant
  · intro other index target held slash
    rw [absolutize, absolutize, List.getElem?_map, List.getElem?_map, held, Option.map_some,
      Option.map_some, absolutizeOne_of_slash slash]
  · intro other otherRooted
    constructor
    · rw [absolutize, absolutize, List.map_map]
      refine List.map_congr_left fun target _ => ?_
      exact (absolutizeOne_eq_self_iff otherRooted _).2 (absolutized rooted target).normal
    · intro text
      rw [← absolutizeOne_eq_self_iff otherRooted text, absolutize, List.map_singleton,
        List.singleton_inj]

/-- Targets with all kinds of slashes and dots. -/
def roughTargets : List Text :=
  ["", ".", "../../..", "a//b/./../c/", "//x//y/", "///z/.."]

/-- What the rough targets mean in the directory `/w/../v/.`. -/
def smoothTargets : List Text :=
  ["/v", "/v", "/", "/v/a/c", "//x/y", "/"]

theorem absolutize_roughTargets :
    ("/w/../v/." : Text).head? = some (.char '/') ∧
      List.Forall₂ (Absolutized "/w/../v/.") roughTargets smoothTargets ∧
      ("/u" : Text).head? = some (.char '/') ∧
      absolutize smoothTargets "/u" = smoothTargets := by
  have rooted : ("/w/../v/." : Text).head? = some (.char '/') := by decide
  have results : smoothTargets = absolutize roughTargets "/w/../v/." := by decide
  obtain ⟨meant, -, kept⟩ := absolutize_normalForms rooted roughTargets
  refine ⟨rooted, (meant smoothTargets).2 results, by decide, ?_⟩
  rw [results]
  exact (kept "/u" (by decide)).1

end Arguments

end PatchShelf
