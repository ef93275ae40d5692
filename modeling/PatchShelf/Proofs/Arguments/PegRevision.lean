/-
Module: PatchShelf.Proofs.Arguments.PegRevision
Purpose: What a target loses with its peg revision.
Main exports:
  Path.leaf, Path.aboveLeaf, Arguments.stripPeg_append_at, Arguments.stripPeg_of_unpegged,
  Arguments.stripPeg_undoes
-/
import Mathlib.Data.List.TakeWhile
import PatchShelf.Arguments
import PatchShelf.Proofs.Path

/-!
A peg revision is looked for from the end of a target, and the search gives up at a
slash.  Two equations say what it comes to: a revision behind an `@` is cut off together
with that `@` if it holds neither sign itself, and nothing is cut off a target without an
`@` behind its last slash.  Every target is of one of the two shapes, by its last slash
and then by its last `@`.
-/

namespace PatchShelf

namespace Path

/-- What stands behind the last slash of a text. -/
def leaf (text : Text) : Text :=
  (text.splitOn '/').getLastD []

/-- A text up to its last slash, and with it. -/
def aboveLeaf (text : Text) : Text :=
  text.dropEndWhile fun glyph => !glyph.isChar '/'

end Path

namespace Text

variable {scalar : Char}

theorem not_isChar_of_notMem {text : Text} (free : Glyph.char scalar ∉ text) :
    ∀ glyph ∈ text.reverse, (!glyph.isChar scalar) = true := by
  intro glyph member
  have other : glyph ≠ Glyph.char scalar := fun same => free (same ▸ List.mem_reverse.1 member)
  simpa [Glyph.isChar] using other

theorem exists_last_of_mem {text : Text} {glyph : Glyph} (member : glyph ∈ text) :
    ∃ before after, text = before ++ glyph :: after ∧ glyph ∉ after := by
  obtain ⟨after, before, shape, free⟩ := List.eq_append_cons_of_mem (List.mem_reverse.2 member)
  refine ⟨before.reverse, after.reverse, ?_, by simpa using free⟩
  rw [← List.reverse_reverse text, shape, List.reverse_append, List.reverse_cons, List.append_assoc,
    List.singleton_append]

end Text

namespace Path

/-- Every text is cut in two behind its last slash. -/
theorem exists_leaf (text : Text) :
    ∃ above last, (above = [] ∨ above.getLast? = some (.char '/')) ∧ Glyph.char '/' ∉ last ∧
      text = above ++ last := by
  by_cases slashed : Glyph.char '/' ∈ text
  · obtain ⟨before, after, rfl, free⟩ := Text.exists_last_of_mem slashed
    exact ⟨before ++ [.char '/'], after, .inr (by simp), free, by simp⟩
  · exact ⟨[], text, .inl rfl, slashed, rfl⟩

section Cut

variable {above last : Text} (ends : above = [] ∨ above.getLast? = some (.char '/'))
  (free : Glyph.char '/' ∉ last)

include ends

theorem takeWhile_reverse_of_ends :
    (above.reverse.takeWhile fun glyph => !glyph.isChar '/') = [] := by
  rcases ends with rfl | slash
  · rfl
  · obtain ⟨before, rfl⟩ := List.getLast?_eq_some_iff.1 slash
    rw [List.reverse_append]
    exact List.takeWhile_cons_of_neg (by decide)

include free

theorem leaf_append : leaf (above ++ last) = last := by
  rcases ends with rfl | slash
  · rw [leaf, List.nil_append, Text.splitOn_of_notMem free]
    rfl
  · obtain ⟨before, rfl⟩ := List.getLast?_eq_some_iff.1 slash
    rw [leaf, List.append_assoc, List.singleton_append, Text.splitOn_append_separator,
      Text.splitOn_of_notMem free, List.getLastD_concat]

theorem aboveLeaf_append : aboveLeaf (above ++ last) = above := by
  have kept : (above.reverse.dropWhile fun glyph => !glyph.isChar '/') = above.reverse := by
    have whole := List.takeWhile_append_dropWhile (p := fun glyph => !glyph.isChar '/')
      (l := above.reverse)
    rwa [takeWhile_reverse_of_ends ends, List.nil_append] at whole
  rw [aboveLeaf, Text.dropEndWhile, List.reverse_append,
    List.dropWhile_append_of_pos (Text.not_isChar_of_notMem free), kept, List.reverse_reverse]

end Cut

end Path

namespace Arguments

/-- A revision without `@` and slash is cut off with the `@` before it. -/
theorem stripPeg_append_at {revision : Text} (unslashed : Glyph.char '/' ∉ revision)
    (unpegged : Glyph.char '@' ∉ revision) (path : Text) :
    stripPeg (path ++ .char '@' :: revision) = path := by
  have backwards : (path ++ .char '@' :: revision).reverse =
      revision.reverse ++ .char '@' :: path.reverse := by
    simp
  have noSlash := Text.not_isChar_of_notMem unslashed
  have noPeg := Text.not_isChar_of_notMem unpegged
  simp only [stripPeg, backwards]
  rw [List.takeWhile_append_of_pos noSlash, List.dropWhile_append_of_pos noSlash,
    List.takeWhile_cons_of_pos (by decide), List.dropWhile_cons_of_pos (by decide),
    List.dropWhile_append_of_pos noPeg, List.dropWhile_cons_of_neg (by decide)]
  simp only [List.takeWhile_append_dropWhile, List.reverse_reverse]

/-- Without an `@` behind the last slash nothing is cut off. -/
theorem stripPeg_of_unpegged {above last : Text}
    (ends : above = [] ∨ above.getLast? = some (.char '/')) (unslashed : Glyph.char '/' ∉ last)
    (unpegged : Glyph.char '@' ∉ last) : stripPeg (above ++ last) = above ++ last := by
  have component : ((above ++ last).reverse.takeWhile fun glyph => !glyph.isChar '/') =
      last.reverse := by
    rw [List.reverse_append, List.takeWhile_append_of_pos (Text.not_isChar_of_notMem unslashed),
      Path.takeWhile_reverse_of_ends ends, List.append_nil]
  have noPeg : (last.reverse.dropWhile fun glyph => !glyph.isChar '@') = [] :=
    List.dropWhile_eq_nil_iff.2 (Text.not_isChar_of_notMem unpegged)
  simp only [stripPeg, component, noPeg]

/-- Cutting the peg revision off undoes the adding of one.  A target loses something exactly
if an `@` stands behind its last slash, then it loses the last `@` and what follows it, and
up to its last slash it stays as it is. -/
theorem stripPeg_undoes :
    (∀ path revision : Text, Glyph.char '/' ∉ revision → Glyph.char '@' ∉ revision →
        stripPeg (path ++ .char '@' :: revision) = path) ∧
      ∀ target : Text,
        (stripPeg target = target ↔ Glyph.char '@' ∉ Path.leaf target) ∧
        (Glyph.char '@' ∈ Path.leaf target →
          ∃ revision, Glyph.char '@' ∉ revision ∧
            target = stripPeg target ++ .char '@' :: revision) ∧
        Path.aboveLeaf (stripPeg target) = Path.aboveLeaf target := by
  refine ⟨fun path revision unslashed unpegged => stripPeg_append_at unslashed unpegged path, ?_⟩
  intro target
  obtain ⟨above, last, ends, unslashed, rfl⟩ := Path.exists_leaf target
  rw [Path.leaf_append ends unslashed]
  by_cases pegged : Glyph.char '@' ∈ last
  · obtain ⟨kept, revision, rfl, unpegged⟩ := Text.exists_last_of_mem pegged
    have inKept : Glyph.char '/' ∉ kept := fun member => unslashed (List.mem_append_left _ member)
    have inRevision : Glyph.char '/' ∉ revision := fun member =>
      unslashed (List.mem_append_right _ (List.mem_cons_of_mem _ member))
    have cut : stripPeg (above ++ (kept ++ .char '@' :: revision)) = above ++ kept := by
      rw [← List.append_assoc]
      exact stripPeg_append_at inRevision unpegged _
    rw [cut, Path.aboveLeaf_append ends inKept, Path.aboveLeaf_append ends unslashed]
    refine ⟨?_, fun _ => ⟨revision, unpegged, by simp⟩, rfl⟩
    refine iff_of_false (fun same => ?_) (not_not_intro pegged)
    simpa using congrArg List.length same
  · rw [stripPeg_of_unpegged ends unslashed pegged]
    exact ⟨iff_of_true rfl pegged, fun member => absurd member pegged, rfl⟩

/-- Of two revisions the last goes, and an `@` in a directory stays. -/
theorem stripPeg_undoes_twice_pegged :
    (Glyph.char '/' ∉ ("12" : Text) ∧ Glyph.char '@' ∉ ("12" : Text) ∧
        stripPeg "dir@2/a@b@12" = "dir@2/a@b") ∧
      Glyph.char '@' ∉ Path.leaf "a@b/" ∧ stripPeg "a@b/" = "a@b/" := by
  have unslashed : Glyph.char '/' ∉ ("12" : Text) := by decide
  have unpegged : Glyph.char '@' ∉ ("12" : Text) := by decide
  have directory : Glyph.char '@' ∉ Path.leaf "a@b/" := by decide
  exact ⟨⟨unslashed, unpegged, stripPeg_undoes.1 "dir@2/a@b" "12" unslashed unpegged⟩, directory,
    (stripPeg_undoes.2 "a@b/").1.2 directory⟩

end Arguments

end PatchShelf
