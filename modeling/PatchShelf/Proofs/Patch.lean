/-
Module: PatchShelf.Proofs.Patch
Purpose: The paths that are read off a diff as it is printed file by file.
Main exports:
  Patch.paths_ofLines, Patch.paths_eq_nil_iff, Patch.paths_append, Patch.length_paths_append,
  Patch.paths_of_complete, Patch.FileDiff, Patch.FileDiff.renderAll,
  Patch.FileDiff.paths_renderAll_eq_iff
-/
import PatchShelf.Patch
import PatchShelf.Proofs.Text.Lines

/-!
A diff is printed file by file: a heading with the path, a rule, and the lines of the
hunks, each ended by a line feed.  Reading the paths back finds every heading.  It finds
more than the headings exactly if a line of a hunk holds, behind a line boundary that is
neither a line feed nor a carriage return, the words that open a heading: the content
of a file is then reported as a path.

Diffs that are put together are read one by one, since a diff that leaves no line open
hides nothing from the one behind it and adds nothing to it.
-/

namespace PatchShelf

namespace Patch

theorem pathOfLine?_eq_none_iff (line : Text) : pathOfLine? line = none ↔ ¬ indexMark <+: line := by
  rw [pathOfLine?, Text.beginsWith]
  split
  · rename_i begins
    simpa using List.isPrefixOf_iff_prefix.1 begins
  · rename_i other
    simpa using fun begins => other (List.isPrefixOf_iff_prefix.2 begins)

theorem pathOfLine?_indexMark_append (path : Text) :
    pathOfLine? (indexMark ++ path) = some path.strip := by
  rw [pathOfLine?, Text.beginsWith, if_pos (List.isPrefixOf_iff_prefix.2 (List.prefix_append _ _)),
    List.drop_left]

theorem indexMark_unbroken : Text.Unbroken indexMark := by
  decide

/-- The paths of a text of lines are those of its lines. -/
theorem paths_ofLines (lines : List Text) : paths (Text.ofLines lines) = lines.flatMap paths :=
  Text.filterMap_splitLines_ofLines (by decide) lines

/-- A text names no path exactly if no line in it opens a heading. -/
theorem paths_eq_nil_iff (text : Text) :
    paths text = [] ↔ ¬ indexMark <+: text ∧ ¬ Text.BehindBoundary indexMark text := by
  have opened : (∃ piece ∈ text.splitLines, indexMark <+: piece) ↔
      indexMark <+: text ∨ Text.BehindBoundary indexMark text := by
    rw [Text.exists_splitLines_iff (by decide) indexMark_unbroken,
      Text.exists_tail_splitLines_iff (by decide) indexMark_unbroken]
  rw [← not_or, ← opened, paths, List.filterMap_eq_nil_iff]
  simp only [pathOfLine?_eq_none_iff, not_exists, not_and]

/-! ### Diffs put together -/

theorem paths_append {first : Text} (closed : first.isClosed = true) (second : Text) :
    paths (first ++ second) = paths first ++ paths second :=
  Text.filterMap_splitLines_append (by decide) closed second

theorem paths_flatten {diffs : List Text} (closed : ∀ diff ∈ diffs, diff.isClosed = true) :
    paths diffs.flatten = diffs.flatMap paths := by
  induction diffs with
  | nil => rfl
  | cons first rest ih =>
      have later := ih fun diff member => closed diff (List.mem_cons_of_mem _ member)
      rw [List.flatten_cons, List.flatMap_cons, paths_append (closed first List.mem_cons_self),
        later]

/-- No end of the mark begins it, so none comes into being where the mark is appended. -/
theorem indexMark_prefix_append_iff {line : Text} (nonempty : line ≠ []) :
    indexMark <+: line ++ indexMark ↔ indexMark <+: line := by
  constructor
  · intro begins
    by_cases long : indexMark.length ≤ line.length
    · exact List.prefix_of_prefix_length_le begins (List.prefix_append _ _) long
    · -- then the first letter of the mark stands once more within the mark
      have apart : ∀ index < indexMark.length, 0 < index →
          indexMark[index]? ≠ some (.char 'I') := by decide
      have within : line.length < indexMark.length := Nat.lt_of_not_le long
      have letter : indexMark[line.length]? = some (.char 'I') := by
        obtain ⟨after, shape⟩ := begins
        rw [← List.getElem?_append_left within, shape,
          List.getElem?_append_right (Nat.le_refl _), Nat.sub_self]
        rfl
      exact absurd letter (apart _ within (List.length_pos_iff.2 nonempty))
  · exact fun begins => begins.trans (List.prefix_append _ _)

/-- A heading behind a line that was left open is a part of that line, and names no path
of its own. -/
theorem length_paths_append {first : Text} (goesOn : first.isClosed = false) :
    (paths (first ++ indexMark)).length = (paths first).length := by
  obtain ⟨lines, last, nonempty, before, after⟩ :=
    Text.exists_splitLines_append goesOn indexMark_unbroken
  have alike : (pathOfLine? (last ++ indexMark)).isSome = (pathOfLine? last).isSome := by
    rw [Bool.eq_iff_iff, Option.isSome_iff_ne_none, Option.isSome_iff_ne_none, Ne, Ne,
      pathOfLine?_eq_none_iff, pathOfLine?_eq_none_iff, indexMark_prefix_append_iff nonempty]
  rw [paths, paths, List.length_filterMap_eq_countP, List.length_filterMap_eq_countP, before, after,
    List.countP_append, List.countP_append, List.countP_singleton, List.countP_singleton, alike]

/-- The paths of complete diffs put together are the paths of the one after those of the
other, whatever line boundaries and headings they hold, and so for any number of diffs.
The texts for which this is so, whatever stands behind them, are those that leave no line
open. -/
theorem paths_of_complete :
    (∀ first second : Text, (first = [] ∨ first.getLast? = some (.char '\n')) →
        paths (first ++ second) = paths first ++ paths second) ∧
      (∀ diffs : List Text, (∀ diff ∈ diffs, diff = [] ∨ diff.getLast? = some (.char '\n')) →
        paths diffs.flatten = diffs.flatMap paths) ∧
      ∀ first : Text, (∀ second, paths (first ++ second) = paths first ++ paths second) ↔
        first.isClosed = true := by
  refine ⟨?_, ?_, ?_⟩
  · intro first second complete
    exact paths_append (Text.isClosed_of_feed complete) second
  · intro diffs complete
    exact paths_flatten fun diff member => Text.isClosed_of_feed (complete diff member)
  · intro first
    constructor
    · intro apart
      cases known : first.isClosed with
      | true => rfl
      | false =>
          have lengths := congrArg List.length (apart indexMark)
          have named : (paths indexMark).length = 1 := by decide
          rw [List.length_append, length_paths_append known, named] at lengths
          omega
    · exact paths_append

/-- A diff whose lines hold other boundaries than line feeds, and half a heading. -/
def roughDiff : Text :=
  "Index: a\r\n+x\u000cIndex: b\nInde\n"

theorem paths_of_complete_rough :
    roughDiff.getLast? = some (.char '\n') ∧
      paths (roughDiff ++ "x: c\nIndex: ") = [("a" : Text), "b", ""] ∧
      paths [roughDiff, [], roughDiff].flatten = [("a" : Text), "b", "a", "b"] := by
  have ends : roughDiff.getLast? = some (.char '\n') := by decide
  have complete : ∀ diff ∈ [roughDiff, [], roughDiff],
      diff = [] ∨ diff.getLast? = some (.char '\n') := by
    decide
  refine ⟨ends, ?_, ?_⟩
  · rw [paths_of_complete.1 _ _ (.inr ends)]
    decide
  · rw [paths_of_complete.2.1 _ complete]
    decide

/-- The characters that a line of a hunk begins with. -/
def bodyMarks : List Char := ['+', '-', ' ', '@', '\\']

/-- A line of a hunk as a diff prints it. -/
structure BodyLine where
  text : Text
  marked : ∃ mark ∈ bodyMarks, text.head? = some (.char mark)
  withoutFeed : Glyph.char '\n' ∉ text
  withoutReturn : Glyph.char '\r' ∉ text

/-- The part of a diff that is about one file. -/
structure FileDiff where
  path : Text
  named : path ≠ []
  unbroken : path.Unbroken
  trimmed : path.strip = path
  ruleWidth : Nat
  body : List BodyLine

namespace BodyLine

variable (line : BodyLine)

theorem not_heading : ¬ indexMark <+: line.text := by
  intro begins
  obtain ⟨mark, member, shown⟩ := line.marked
  have first : line.text.head? = indexMark.head? := by
    obtain ⟨after, shape⟩ := begins
    rw [← shape]
    rfl
  obtain rfl : mark = 'I' := by
    rw [shown] at first
    simpa [indexMark, Text.ofString] using first
  exact absurd member (by decide)

theorem paths_eq_nil_iff :
    Patch.paths line.text = [] ↔ ¬ Text.BehindBoundary indexMark line.text := by
  rw [Patch.paths_eq_nil_iff]
  exact and_iff_right line.not_heading

end BodyLine

namespace FileDiff

variable (file : FileDiff)

/-- The lines that are printed for the file. -/
def lines : List Text :=
  (indexMark ++ file.path) :: List.replicate file.ruleWidth (.char '=') ::
    file.body.map BodyLine.text

/-- The diff that is printed for some files. -/
def renderAll (files : List FileDiff) : Text :=
  Text.ofLines (files.flatMap lines)

theorem paths_heading : paths (indexMark ++ file.path) = [file.path] := by
  have whole : Text.Unbroken (indexMark ++ file.path) := by
    intro glyph member
    rcases List.mem_append.1 member with inMark | inPath
    · exact indexMark_unbroken glyph inMark
    · exact file.unbroken glyph inPath
  rw [paths, Text.splitLines_of_unbroken (by simp [indexMark, Text.ofString]) whole,
    List.filterMap_cons_some (pathOfLine?_indexMark_append _), file.trimmed, List.filterMap_nil]

theorem paths_rule (width : Nat) : paths (List.replicate width (.char '=')) = [] := by
  refine (Patch.paths_eq_nil_iff _).2 ⟨?_, ?_⟩
  · intro begins
    exact absurd (List.eq_of_mem_replicate
      (begins.subset (show Glyph.char 'I' ∈ indexMark by decide))) (by decide)
  · rintro ⟨before, glyph, after, ends, shape⟩
    have member : glyph ∈ List.replicate width (Glyph.char '=') := by simp [shape]
    obtain rfl := List.eq_of_mem_replicate member
    exact absurd ends (by decide)

/-- What is read off the diff of one file: its path, and whatever its hunks hide. -/
theorem flatMap_paths_lines :
    file.lines.flatMap paths =
      file.path :: file.body.flatMap fun line => paths line.text := by
  rw [lines, List.flatMap_cons, List.flatMap_cons, paths_heading, paths_rule, List.flatMap_map]
  rfl

theorem paths_renderAll (files : List FileDiff) :
    paths (renderAll files) = files.flatMap fun file =>
      file.path :: file.body.flatMap fun line => paths line.text := by
  rw [renderAll, paths_ofLines, List.flatMap_assoc]
  simp only [flatMap_paths_lines]

end FileDiff

section Headed

variable {α β : Type} (lead : α → β) (more : α → List β)

theorem length_le_length_flatMap_cons (members : List α) :
    members.length ≤ (members.flatMap fun member => lead member :: more member).length := by
  induction members with
  | nil => simp
  | cons first rest ih =>
      rw [List.flatMap_cons, List.length_append, List.length_cons, List.length_cons]
      omega

/-- Lists that each begin with a member of their own hold just these members if none
goes on behind it. -/
theorem flatMap_cons_eq_map_iff (members : List α) :
    (members.flatMap fun member => lead member :: more member) = members.map lead ↔
      ∀ member ∈ members, more member = [] := by
  induction members with
  | nil => simp
  | cons first rest ih =>
      rw [List.flatMap_cons, List.map_cons, List.cons_append, List.cons.injEq,
        List.forall_mem_cons, ← ih]
      constructor
      · rintro ⟨-, same⟩
        have lengths := congrArg List.length same
        rw [List.length_append, List.length_map] at lengths
        have atLeast := length_le_length_flatMap_cons lead more rest
        have none : more first = [] := List.eq_nil_of_length_eq_zero (by omega)
        exact ⟨none, by rwa [none, List.nil_append] at same⟩
      · rintro ⟨none, same⟩
        exact ⟨rfl, by rw [none, List.nil_append, same]⟩

end Headed

namespace FileDiff

/-- Reading the paths off a printed diff finds the path of each file in its place, and
with it the paths that its hunks hide; it finds nothing else exactly if no line of a
hunk holds the beginning of a heading behind a line boundary. -/
theorem paths_renderAll_eq_iff (files : List FileDiff) :
    (paths (renderAll files) = files.flatMap fun file =>
        file.path :: file.body.flatMap fun line => paths line.text) ∧
      (paths (renderAll files) = files.map path ↔
        ∀ file ∈ files, ∀ line ∈ file.body, ¬ Text.BehindBoundary indexMark line.text) := by
  refine ⟨paths_renderAll files, ?_⟩
  rw [paths_renderAll, flatMap_cons_eq_map_iff]
  simp only [List.flatMap_eq_nil_iff, BodyLine.paths_eq_nil_iff]

/-- The diff of one file, to which a line is added that holds a heading behind a form feed. -/
def fed : FileDiff where
  path := "a"
  named := by decide
  unbroken := by decide
  trimmed := by decide
  ruleWidth := 67
  body := [⟨"+x\u000cIndex: b", ⟨'+', by decide, rfl⟩, by decide, by decide⟩]

/-- The diff of another file, to which a line is added that only mentions a heading. -/
def mentioning : FileDiff where
  path := "c"
  named := by decide
  unbroken := by decide
  trimmed := by decide
  ruleWidth := 67
  body := [⟨"+see Index: d", ⟨'+', by decide, rfl⟩, by decide, by decide⟩]

/-- A form feed in an added line is enough for another path. -/
theorem paths_renderAll_of_fed :
    paths (renderAll [mentioning, fed]) = [("c" : Text), "a", "b"] ∧
      ∃ line ∈ fed.body, Text.BehindBoundary indexMark line.text := by
  obtain ⟨found, exactly⟩ := paths_renderAll_eq_iff [mentioning, fed]
  have more : paths (renderAll [mentioning, fed]) = [("c" : Text), "a", "b"] :=
    found.trans (by decide)
  have alone : paths (renderAll [mentioning]) = [mentioning].map path := by decide
  have harmless := List.forall_mem_singleton.1 ((paths_renderAll_eq_iff [mentioning]).2.1 alone)
  refine ⟨more, Classical.byContradiction fun none => ?_⟩
  have same := exactly.2 (List.forall_mem_cons.2 ⟨harmless, List.forall_mem_singleton.2
    fun line member behind => none ⟨line, member, behind⟩⟩)
  exact absurd (more.symm.trans same) (by decide)

end FileDiff

end Patch

end PatchShelf
