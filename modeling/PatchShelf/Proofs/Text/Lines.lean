/-
Module: PatchShelf.Proofs.Text.Lines
Purpose: The lines of a text, from the boundary that cuts it and from the lines it was made of.
Main exports:
  Text.lines_induction, Text.splitLines_cut, Text.ofLines, Text.splitLines_ofLines,
  Text.splitLines_feed_eq_iff, Text.filterMap_splitLines_ofLines,
  Text.filterMap_splitLines_append, Text.exists_splitLines_append,
  Text.splitLines_uniformLines, Text.BehindBoundary, Text.exists_tail_splitLines_iff
-/
import PatchShelf.Proofs.Path
import PatchShelf.Text.Lines

/-!
One equation carries what is said here about lines: at a boundary the lines of a text
are the lines up to it followed by the lines after it, unless the boundary is the first
half of a carriage return and line feed.  A text that was made of lines ended by line
feeds is therefore cut at those feeds, and then inside the lines wherever one of them
holds a boundary of another kind.  Where a text ends at a boundary of any kind, what is
gathered from its lines and from those of a text behind it is gathered from both together.
-/

namespace PatchShelf

namespace Text

/-- The text of lines that are each ended by a line feed. -/
def ofLines (lines : List Text) : Text :=
  lines.flatMap (· ++ [Glyph.char '\n'])

/-- No line ends in the text. -/
def Unbroken (text : Text) : Prop :=
  ∀ glyph ∈ text, glyph.endsLine = false

instance (text : Text) : Decidable (Unbroken text) :=
  inferInstanceAs (Decidable (∀ glyph ∈ text, glyph.endsLine = false))

/-- The mark stands somewhere in the text directly behind a line boundary. -/
def BehindBoundary (mark text : Text) : Prop :=
  ∃ before glyph after, glyph.endsLine = true ∧ text = before ++ glyph :: (mark ++ after)

/-- Is no line left open at the end of the text? -/
def isClosed (text : Text) : Bool :=
  text.getLast?.all Glyph.endsLine

@[simp] theorem ofLines_nil : ofLines [] = [] := rfl

theorem ofLines_cons (line : Text) (lines : List Text) :
    ofLines (line :: lines) = line ++ Glyph.char '\n' :: ofLines lines := by
  simp [ofLines]

/-! ### One glyph at a time -/

/-- A text is met end by end: it is empty, or begins with a return and a feed, with another end
of a line, or with a glyph inside a line. -/
@[elab_as_elim]
theorem lines_induction {motive : Text → Prop} (nil : motive [])
    (pair : ∀ rest, motive rest → motive (.char '\r' :: .char '\n' :: rest))
    (boundary : ∀ first rest, first.endsLine = true →
      (first = .char '\r' → rest.head? ≠ some (.char '\n')) → motive rest →
      motive (first :: rest))
    (inside : ∀ first rest, first.endsLine = false → motive rest → motive (first :: rest))
    (text : Text) : motive text := by
  induction text using splitLines.induct with
  | case1 => exact nil
  | case2 rest ih => exact pair rest ih
  | case3 first rest unpaired ends ih =>
      refine boundary first rest ends (fun isReturn begins => ?_) ih
      obtain ⟨more, rfl⟩ := List.head?_eq_some_iff.1 begins
      exact unpaired more isReturn rfl
  | case4 first rest _ outside ih => exact inside first rest (by simpa using outside) ih

/-- A return with a feed behind it is one end of a line. -/
theorem splitLines_pair (rest : Text) :
    splitLines (.char '\r' :: .char '\n' :: rest) = [] :: splitLines rest := by
  rw [splitLines]

/-- Any other end in front ends an empty line. -/
theorem splitLines_cons_of_endsLine {glyph : Glyph} {rest : Text} (ends : glyph.endsLine = true)
    (alone : glyph = .char '\r' → rest.head? ≠ some (.char '\n')) :
    splitLines (glyph :: rest) = [] :: splitLines rest := by
  rw [splitLines.eq_3]
  · rw [if_pos ends]
  · rintro more rfl rfl
    exact alone rfl rfl

/-- A glyph that ends no line belongs to the first one. -/
theorem splitLines_cons_of_inside {glyph : Glyph} (inside : glyph.endsLine = false) (rest : Text) :
    splitLines (glyph :: rest) = consHead glyph (splitLines rest) := by
  rw [splitLines.eq_3]
  · rw [if_neg (by simp [inside])]
  · rintro more rfl rfl
    exact absurd inside (by decide)

/-- A text that is not empty has a line. -/
theorem splitLines_ne_nil {text : Text} (nonempty : text ≠ []) : splitLines text ≠ [] := by
  induction text using lines_induction with
  | nil => exact absurd rfl nonempty
  | pair rest =>
      rw [splitLines_pair]
      exact List.cons_ne_nil _ _
  | boundary first rest ends apart =>
      rw [splitLines_cons_of_endsLine ends apart]
      exact List.cons_ne_nil _ _
  | inside first rest within =>
      rw [splitLines_cons_of_inside within]
      exact consHead_ne_nil _ _

/-- A glyph that opens no pair opens none when the text goes on, unless the text
ended at it. -/
theorem head?_append_ne_feed {first : Glyph} {front tail : Text}
    (apart : first = .char '\r' → front.head? ≠ some (.char '\n'))
    (last : first = .char '\r' → front = [] → tail.head? ≠ some (.char '\n')) :
    first = .char '\r' → (front ++ tail).head? ≠ some (.char '\n') := by
  intro isReturn begins
  cases front with
  | nil => exact last isReturn rfl begins
  | cons next front => exact apart isReturn begins

/-! ### Cutting a text at a boundary -/

/-- Behind an end of a line the rest is cut by itself, unless a return and a feed are torn apart. -/
theorem splitLines_cut (front : Text) {glyph : Glyph} {rest : Text}
    (ends : glyph.endsLine = true)
    (alone : glyph = .char '\r' → rest.head? ≠ some (.char '\n')) :
    splitLines (front ++ glyph :: rest) = splitLines (front ++ [glyph]) ++ splitLines rest := by
  induction front using lines_induction with
  | nil =>
      rw [List.nil_append, List.nil_append, splitLines_cons_of_endsLine ends alone,
        splitLines_cons_of_endsLine ends (by simp)]
      rfl
  | pair front ih =>
      simp only [List.cons_append, splitLines_pair, ih]
  | boundary first front firstEnds unpaired ih =>
      -- a carriage return at the end of the front makes a pair with a line feed at the cut
      by_cases pair : first = .char '\r' ∧ front = [] ∧ glyph = .char '\n'
      · obtain ⟨rfl, rfl, rfl⟩ := pair
        simp only [List.cons_append, List.nil_append, splitLines_pair]
        rfl
      · have apart : ∀ tail, first = .char '\r' →
            (front ++ glyph :: tail).head? ≠ some (.char '\n') := fun tail =>
          head?_append_ne_feed unpaired fun isReturn isLast begins =>
            pair ⟨isReturn, isLast, by simpa using begins⟩
        rw [List.cons_append, List.cons_append, splitLines_cons_of_endsLine firstEnds (apart rest),
          splitLines_cons_of_endsLine firstEnds (apart []), ih]
        rfl
  | inside first front within ih =>
      rw [List.cons_append, List.cons_append, splitLines_cons_of_inside within,
        splitLines_cons_of_inside within, ih, consHead_append _ _ (splitLines_ne_nil (by simp))]

theorem unbroken_cons {glyph : Glyph} {rest : Text} :
    Unbroken (glyph :: rest) ↔ glyph.endsLine = false ∧ Unbroken rest :=
  List.forall_mem_cons

/-- A text is unbroken if both its parts are. -/
theorem unbroken_append {front rest : Text} :
    Unbroken (front ++ rest) ↔ Unbroken front ∧ Unbroken rest :=
  List.forall_mem_append

/-- A text of glyphs from an unbroken one is unbroken. -/
theorem Unbroken.subset {text part : Text} (unbroken : Unbroken text) (within : part ⊆ text) :
    Unbroken part :=
  fun glyph member => unbroken glyph (within member)

/-- An unbroken text is its only line. -/
theorem splitLines_of_unbroken {text : Text} (nonempty : text ≠ []) (unbroken : Unbroken text) :
    splitLines text = [text] := by
  induction text with
  | nil => exact absurd rfl nonempty
  | cons glyph rest ih =>
      rw [unbroken_cons] at unbroken
      rw [splitLines_cons_of_inside unbroken.1]
      cases rest with
      | nil => rfl
      | cons next rest =>
          rw [ih (by simp) unbroken.2]
          rfl

/-- With one glyph more in front, the pieces stay as they are but for one that has it in front. -/
theorem eq_or_mem_of_mem_consHead {glyph : Glyph} {fields : List Text} {piece : Text}
    (member : piece ∈ consHead glyph fields) :
    piece ∈ fields ∨ ∃ field, (field = [] ∨ field ∈ fields) ∧ piece = glyph :: field := by
  cases fields with
  | nil => exact .inr ⟨[], .inl rfl, List.mem_singleton.1 member⟩
  | cons first rest =>
      rcases List.mem_cons.1 member with rfl | later
      · exact .inr ⟨first, .inr List.mem_cons_self, rfl⟩
      · exact .inl (List.mem_cons_of_mem _ later)

/-- The lines of a text are made of its glyphs, and no line ends within them. -/
theorem of_mem_splitLines (text : Text) :
    ∀ piece ∈ splitLines text, Unbroken piece ∧ piece ⊆ text := by
  induction text using lines_induction with
  | nil => exact List.forall_mem_nil _
  | pair rest ih =>
      rw [splitLines_pair]
      refine List.forall_mem_cons.2 ⟨⟨List.forall_mem_nil _, List.nil_subset _⟩, ?_⟩
      intro piece member
      obtain ⟨unbroken, within⟩ := ih piece member
      exact ⟨unbroken, fun glyph found => by simp [within found]⟩
  | boundary first rest ends apart ih =>
      rw [splitLines_cons_of_endsLine ends apart]
      refine List.forall_mem_cons.2 ⟨⟨List.forall_mem_nil _, List.nil_subset _⟩, ?_⟩
      intro piece member
      obtain ⟨unbroken, within⟩ := ih piece member
      exact ⟨unbroken, List.subset_cons_of_subset _ within⟩
  | inside first rest inside ih =>
      rw [splitLines_cons_of_inside inside]
      intro piece member
      rcases eq_or_mem_of_mem_consHead member with later | ⟨field, rfl | known, rfl⟩
      · obtain ⟨unbroken, within⟩ := ih piece later
        exact ⟨unbroken, List.subset_cons_of_subset _ within⟩
      · exact ⟨unbroken_cons.2 ⟨inside, List.forall_mem_nil _⟩, by simp⟩
      · obtain ⟨unbroken, within⟩ := ih field known
        exact ⟨unbroken_cons.2 ⟨inside, unbroken⟩,
          List.cons_subset_cons first within⟩

/-- A line feed at the end ends the last line, or it ends an empty line of its own. -/
theorem splitLines_feed (line : Text) :
    splitLines (line ++ [Glyph.char '\n']) = splitLines line ∨
      splitLines (line ++ [Glyph.char '\n']) = splitLines line ++ [[]] := by
  induction line using lines_induction with
  | nil => exact .inr rfl
  | pair line ih =>
      simp only [List.cons_append, splitLines_pair]
      rcases ih with same | more
      · exact .inl (by rw [same])
      · exact .inr (by rw [more])
  | boundary first line firstEnds apart ih =>
      by_cases pair : first = .char '\r' ∧ line = []
      · obtain ⟨rfl, rfl⟩ := pair
        exact .inl rfl
      · rw [List.cons_append, splitLines_cons_of_endsLine firstEnds apart,
          splitLines_cons_of_endsLine firstEnds
            (head?_append_ne_feed apart fun isReturn isLast => absurd ⟨isReturn, isLast⟩ pair)]
        rcases ih with same | more
        · exact .inl (by rw [same])
        · exact .inr (by rw [more]; rfl)
  | inside first line within ih =>
      rw [List.cons_append, splitLines_cons_of_inside within, splitLines_cons_of_inside within]
      rcases ih with same | more
      · exact .inl (by rw [same])
      · cases line with
        | nil => exact .inl rfl
        | cons next line =>
            rw [more, consHead_append _ _ (splitLines_ne_nil (by simp))]
            exact .inr rfl

/-- No line is longer than the text. -/
theorem length_le_of_mem_splitLines {text piece : Text} (member : piece ∈ splitLines text) :
    piece.length ≤ text.length := by
  induction text using lines_induction generalizing piece with
  | nil => cases member
  | pair rest ih =>
      rw [splitLines_pair] at member
      rcases List.mem_cons.1 member with rfl | later
      · exact Nat.zero_le _
      · exact Nat.le_succ_of_le (Nat.le_succ_of_le (ih later))
  | boundary first rest ends apart ih =>
      rw [splitLines_cons_of_endsLine ends apart] at member
      rcases List.mem_cons.1 member with rfl | later
      · exact Nat.zero_le _
      · exact Nat.le_succ_of_le (ih later)
  | inside first rest within ih =>
      rw [splitLines_cons_of_inside within] at member
      rcases eq_or_mem_of_mem_consHead member with later | ⟨field, rfl | known, rfl⟩
      · exact Nat.le_succ_of_le (ih later)
      · simp
      · exact Nat.succ_le_succ (ih known)

/-- The line feed that ends a text makes no line longer. -/
theorem length_le_of_mem_splitLines_feed {line piece : Text}
    (member : piece ∈ splitLines (line ++ [Glyph.char '\n'])) : piece.length ≤ line.length := by
  rcases splitLines_feed line with same | more
  · rw [same] at member
    exact length_le_of_mem_splitLines member
  · rw [more, List.mem_append, List.mem_singleton] at member
    rcases member with earlier | rfl
    · exact length_le_of_mem_splitLines earlier
    · exact Nat.zero_le _

/-- With a feed behind it, even an empty text has a line. -/
theorem splitLines_feed_ne_nil (line : Text) : splitLines (line ++ [Glyph.char '\n']) ≠ [] :=
  splitLines_ne_nil (by simp)

/-- Where a line ends at the first glyph, only a carriage return leaves an empty line. -/
theorem eq_of_unbroken_of_endsLine {first : Glyph} {rest words : Text}
    (ends : first.endsLine = true) (unbroken : Unbroken words)
    (shape : first :: rest = words ∨ first :: rest = words ++ [Glyph.char '\r']) :
    words = [] ∧ first = .char '\r' ∧ rest = [] := by
  cases words with
  | nil =>
      rcases shape with none | only
      · cases none
      · obtain ⟨rfl, rfl⟩ := List.cons.inj only
        exact ⟨rfl, rfl, rfl⟩
  | cons next words =>
      have same : first = next := by
        rcases shape with whole | whole
        · exact (List.cons.inj whole).1
        · exact (List.cons.inj whole).1
      have inside := (unbroken_cons.1 unbroken).1
      rw [← same, ends] at inside
      cases inside

/-- A text and a line feed make one line exactly if no line ends in the text, or only at a
carriage return at its end, which the line feed completes. -/
theorem splitLines_feed_eq_iff (line words : Text) :
    splitLines (line ++ [Glyph.char '\n']) = [words] ↔
      Unbroken words ∧ (line = words ∨ line = words ++ [Glyph.char '\r']) := by
  induction line using lines_induction generalizing words with
  | nil =>
      constructor
      · intro whole
        obtain rfl : [] = words := (List.cons.inj whole).1
        exact ⟨List.forall_mem_nil _, .inl rfl⟩
      · rintro ⟨-, rfl | more⟩
        · rfl
        · simp at more
  | pair line ih =>
      rw [List.cons_append, List.cons_append, splitLines_pair]
      constructor
      · intro whole
        exact absurd (List.cons.inj whole).2 (splitLines_feed_ne_nil line)
      · rintro ⟨unbroken, shape⟩
        cases (eq_of_unbroken_of_endsLine (by decide) unbroken shape).2.2
  | boundary first line ends apart ih =>
      -- A carriage return at the end makes one line end with the line feed.
      by_cases pair : first = .char '\r' ∧ line = []
      · obtain ⟨rfl, rfl⟩ := pair
        constructor
        · intro whole
          obtain rfl : [] = words := (List.cons.inj whole).1
          exact ⟨List.forall_mem_nil _, .inr rfl⟩
        · rintro ⟨unbroken, shape⟩
          rw [(eq_of_unbroken_of_endsLine ends unbroken shape).1]
          rfl
      · rw [List.cons_append, splitLines_cons_of_endsLine ends
          (head?_append_ne_feed apart fun isReturn isLast => absurd ⟨isReturn, isLast⟩ pair)]
        constructor
        · intro whole
          exact absurd (List.cons.inj whole).2 (splitLines_feed_ne_nil line)
        · rintro ⟨unbroken, shape⟩
          exact absurd (eq_of_unbroken_of_endsLine ends unbroken shape).2 pair
  | inside first line inside ih =>
      rw [List.cons_append, splitLines_cons_of_inside inside]
      obtain ⟨piece, pieces, parts⟩ := List.exists_cons_of_ne_nil (splitLines_feed_ne_nil line)
      rw [parts] at ih ⊢
      constructor
      · intro whole
        obtain ⟨rfl, rfl⟩ := List.cons.inj whole
        obtain ⟨unbroken, shape⟩ := (ih piece).1 rfl
        refine ⟨unbroken_cons.2 ⟨inside, unbroken⟩, ?_⟩
        rcases shape with rfl | rfl
        · exact .inl rfl
        · exact .inr rfl
      · rintro ⟨unbroken, rfl | shape⟩
        · rw [(ih line).2 ⟨(unbroken_cons.1 unbroken).2, .inl rfl⟩]
          rfl
        · cases words with
          | nil =>
              obtain ⟨rfl, rfl⟩ := List.cons.inj shape
              cases inside
          | cons next words =>
              obtain ⟨rfl, rfl⟩ := List.cons.inj shape
              rw [(ih words).2 ⟨(unbroken_cons.1 unbroken).2, .inr rfl⟩]
              rfl

/-- An empty text is closed, and so is one with a feed at its end. -/
theorem isClosed_of_feed {text : Text}
    (complete : text = [] ∨ text.getLast? = some (.char '\n')) : text.isClosed = true := by
  rcases complete with rfl | ends
  · rfl
  · rw [isClosed, ends]
    rfl

/-- A text that leaves a line open is one glyph inside a line, or has such a text behind its
first glyph. -/
theorem of_isClosed_cons {glyph : Glyph} {rest : Text} (goesOn : isClosed (glyph :: rest) = false) :
    rest = [] ∧ glyph.endsLine = false ∨ isClosed rest = false := by
  cases rest with
  | nil => exact .inl ⟨rfl, by simpa [isClosed] using goesOn⟩
  | cons next rest => exact .inr (by simpa [isClosed] using goesOn)

/-- What is appended to a text that leaves a line open goes to that line. -/
theorem exists_splitLines_append {front tail : Text} (goesOn : front.isClosed = false)
    (unbroken : Unbroken tail) :
    ∃ lines last, last ≠ [] ∧ splitLines front = lines ++ [last] ∧
      splitLines (front ++ tail) = lines ++ [last ++ tail] := by
  induction front using lines_induction with
  | nil => cases goesOn
  | pair rest ih =>
      have behind : isClosed rest = false := by
        rcases of_isClosed_cons goesOn with ⟨none, -⟩ | later
        · cases none
        · rcases of_isClosed_cons later with ⟨-, inside⟩ | later
          · cases inside
          · exact later
      obtain ⟨lines, last, nonempty, before, after⟩ := ih behind
      refine ⟨[] :: lines, last, nonempty, by rw [splitLines_pair, before]; rfl, ?_⟩
      rw [List.cons_append, List.cons_append, splitLines_pair, after]
      rfl
  | boundary first rest ends apart ih =>
      have behind : isClosed rest = false := by
        rcases of_isClosed_cons goesOn with ⟨-, inside⟩ | later
        · rw [ends] at inside
          cases inside
        · exact later
      obtain ⟨lines, last, nonempty, before, after⟩ := ih behind
      refine ⟨[] :: lines, last, nonempty, ?_, ?_⟩
      · rw [splitLines_cons_of_endsLine ends apart, before]
        rfl
      rw [List.cons_append, splitLines_cons_of_endsLine ends, after]
      · rfl
      · refine head?_append_ne_feed apart fun _ none => ?_
        rw [none] at behind
        cases behind
  | inside first rest inside ih =>
      rw [List.cons_append, splitLines_cons_of_inside inside, splitLines_cons_of_inside inside]
      -- The open line begins here, or further behind.
      rcases of_isClosed_cons goesOn with ⟨rfl, -⟩ | behind
      · refine ⟨[], [first], by simp, rfl, ?_⟩
        rw [← splitLines_cons_of_inside inside]
        exact splitLines_of_unbroken (by simp) (unbroken_cons.2 ⟨inside, unbroken⟩)
      · obtain ⟨lines, last, nonempty, before, after⟩ := ih behind
        rw [before, after]
        cases lines with
        | nil => exact ⟨[], first :: last, by simp, rfl, rfl⟩
        | cons line lines => exact ⟨(first :: line) :: lines, last, nonempty, rfl, rfl⟩

/-! ### Texts made of lines -/

/-- Each line is cut by itself. -/
theorem splitLines_ofLines (lines : List Text) :
    splitLines (ofLines lines) = lines.flatMap fun line => splitLines (line ++ [.char '\n']) := by
  induction lines with
  | nil => rfl
  | cons line lines ih =>
      rw [ofLines_cons, splitLines_cut line (by decide) (by simp), ih, List.flatMap_cons]

section Gathered

variable {α : Type} {gather : Text → Option α}

/-- A feed at the end makes at most an empty line more, which is not gathered. -/
theorem filterMap_splitLines_feed (skipsEmpty : gather [] = none) (line : Text) :
    (splitLines (line ++ [Glyph.char '\n'])).filterMap gather =
      (splitLines line).filterMap gather := by
  rcases splitLines_feed line with same | more
  · rw [same]
  · rw [more, List.filterMap_append, List.filterMap_cons_none skipsEmpty, List.filterMap_nil,
      List.append_nil]

/-- What is gathered from the text of some lines is gathered from each of them. -/
theorem filterMap_splitLines_ofLines (skipsEmpty : gather [] = none) (lines : List Text) :
    (splitLines (ofLines lines)).filterMap gather =
      lines.flatMap fun line => (splitLines line).filterMap gather := by
  simp only [splitLines_ofLines, List.filterMap_flatMap, filterMap_splitLines_feed skipsEmpty]

/-- Behind a text that leaves no line open, the gathering starts anew. -/
theorem filterMap_splitLines_append (skipsEmpty : gather [] = none) {first : Text}
    (closed : first.isClosed = true) (second : Text) :
    (splitLines (first ++ second)).filterMap gather =
      (splitLines first).filterMap gather ++ (splitLines second).filterMap gather := by
  rcases List.eq_nil_or_concat first with rfl | ⟨front, glyph, rfl⟩
  · rfl
  · rw [List.concat_eq_append] at closed ⊢
    have ends : glyph.endsLine = true := by simpa [isClosed] using closed
    by_cases pair : glyph = .char '\r' ∧ second.head? = some (.char '\n')
    · -- the line feed belongs to the boundary; by itself it ends a line that is empty
      obtain ⟨rfl, begins⟩ := pair
      obtain ⟨rest, rfl⟩ := List.head?_eq_some_iff.1 begins
      have feed : (Glyph.char '\n').endsLine = true := by decide
      rw [splitLines_cut _ feed (by simp), splitLines_cons_of_endsLine feed (by simp),
        List.filterMap_append, filterMap_splitLines_feed skipsEmpty,
        List.filterMap_cons_none skipsEmpty]
    · rw [List.append_assoc, List.singleton_append,
        splitLines_cut front ends fun isReturn begins => pair ⟨isReturn, begins⟩,
        List.filterMap_append]

end Gathered

/-- Only at a return do the ends of lines change. -/
theorem uniformLines_cons_of_ne {glyph : Glyph} (other : glyph ≠ .char '\r') (rest : Text) :
    uniformLines (glyph :: rest) = glyph :: uniformLines rest := by
  rw [uniformLines.eq_4]
  · rintro more rfl
    exact absurd rfl other
  · rintro rfl
    exact other rfl

/-- Lines are the same whether or not the line ends are uniform. -/
theorem splitLines_uniformLines (text : Text) : splitLines text.uniformLines = splitLines text := by
  fun_induction uniformLines text with
  | case1 => rfl
  | case2 rest ih =>
      rw [splitLines_cons_of_endsLine (by decide) (by simp), splitLines_pair, ih]
  | case3 rest alone ih =>
      have apart : rest.head? ≠ some (.char '\n') := by
        intro begins
        cases rest with
        | nil => simp at begins
        | cons next rest =>
            obtain rfl : next = .char '\n' := by simpa using begins
            exact alone rest rfl
      rw [splitLines_cons_of_endsLine (by decide) (by simp),
        splitLines_cons_of_endsLine (by decide) fun _ => apart, ih]
  | case4 glyph rest _ other ih =>
      have notReturn : glyph ≠ .char '\r' := fun same => other same
      cases ends : glyph.endsLine with
      | true =>
          rw [splitLines_cons_of_endsLine ends fun same => absurd same notReturn,
            splitLines_cons_of_endsLine ends fun same => absurd same notReturn, ih]
      | false => rw [splitLines_cons_of_inside ends, splitLines_cons_of_inside ends, ih]

/-! ### A mark at the beginning of a line -/

/-- The first line goes up to the first glyph that ends one. -/
theorem headD_splitLines (text : Text) :
    (splitLines text).headD [] = text.takeWhile fun glyph => !glyph.endsLine := by
  induction text using lines_induction with
  | nil => rfl
  | pair rest ih =>
      rw [splitLines_pair]
      rfl
  | boundary first rest ends apart ih =>
      rw [splitLines_cons_of_endsLine ends apart, List.takeWhile_cons_of_neg (by simp [ends])]
      rfl
  | inside first rest inside ih =>
      rw [splitLines_cons_of_inside inside, List.takeWhile_cons_of_pos (by simp [inside]), ← ih]
      cases splitLines rest <;> rfl

/-- The first line begins with an unbroken mark exactly if the text does. -/
theorem prefix_headD_splitLines_iff {mark : Text} (unbroken : Unbroken mark) (text : Text) :
    mark <+: (splitLines text).headD [] ↔ mark <+: text := by
  rw [headD_splitLines]
  constructor
  · exact fun begins => begins.trans (List.takeWhile_prefix _)
  · rintro ⟨after, rfl⟩
    rw [List.takeWhile_append_of_pos fun glyph member => by simp [unbroken glyph member]]
    exact List.prefix_append _ _

theorem not_behindBoundary_nil (mark : Text) : ¬ BehindBoundary mark [] := by
  rintro ⟨before, glyph, after, -, shape⟩
  simp at shape

/-- A glyph that ends no line is no boundary. -/
theorem behindBoundary_cons_of_inside {mark : Text} {glyph : Glyph}
    (inside : glyph.endsLine = false) (rest : Text) :
    BehindBoundary mark (glyph :: rest) ↔ BehindBoundary mark rest := by
  constructor
  · rintro ⟨before, cut, after, ends, shape⟩
    cases before with
    | nil =>
        obtain ⟨rfl, -⟩ := List.cons.inj shape
        exact absurd ends (by simp [inside])
    | cons first before => exact ⟨before, cut, after, ends, (List.cons.inj shape).2⟩
  · rintro ⟨before, cut, after, ends, rfl⟩
    exact ⟨glyph :: before, cut, after, ends, rfl⟩

/-- Behind one that does, the mark may stand at once or later. -/
theorem behindBoundary_cons_of_endsLine {mark : Text} {glyph : Glyph}
    (ends : glyph.endsLine = true) (rest : Text) :
    BehindBoundary mark (glyph :: rest) ↔ mark <+: rest ∨ BehindBoundary mark rest := by
  constructor
  · rintro ⟨before, cut, after, cutEnds, shape⟩
    cases before with
    | nil => exact .inl ⟨after, (List.cons.inj shape).2.symm⟩
    | cons first before => exact .inr ⟨before, cut, after, cutEnds, (List.cons.inj shape).2⟩
  · rintro (⟨after, rfl⟩ | ⟨before, cut, after, cutEnds, rfl⟩)
    · exact ⟨[], glyph, after, ends, rfl⟩
    · exact ⟨glyph :: before, cut, after, cutEnds, rfl⟩

section Mark

variable {mark : Text} (nonempty : mark ≠ []) (unbroken : Unbroken mark)

include nonempty unbroken

/-- A mark without ends of lines does not begin with one. -/
theorem not_prefix_cons_of_endsLine {glyph : Glyph} (ends : glyph.endsLine = true) (rest : Text) :
    ¬ mark <+: glyph :: rest := by
  intro begins
  cases mark with
  | nil => exact nonempty rfl
  | cons first mark =>
      obtain ⟨rfl, -⟩ := List.cons_prefix_cons.1 begins
      exact absurd ends (by simp [unbroken first List.mem_cons_self])

/-- A line begins with the mark if the text does, or a line after the first does. -/
theorem exists_splitLines_iff (text : Text) :
    (∃ piece ∈ splitLines text, mark <+: piece) ↔
      mark <+: text ∨ ∃ piece ∈ (splitLines text).tail, mark <+: piece := by
  rw [← prefix_headD_splitLines_iff unbroken text]
  cases splitLines text with
  | nil => simpa using nonempty
  | cons piece pieces => simp

/-- A line after the first begins with the mark exactly if the mark stands behind a
boundary. -/
theorem exists_tail_splitLines_iff (text : Text) :
    (∃ piece ∈ (splitLines text).tail, mark <+: piece) ↔ BehindBoundary mark text := by
  have cutAt : ∀ (glyph : Glyph) {rest : Text}, glyph.endsLine = true →
      ((∃ piece ∈ (splitLines rest).tail, mark <+: piece) ↔ BehindBoundary mark rest) →
      ((∃ piece ∈ ([] :: splitLines rest).tail, mark <+: piece) ↔
        BehindBoundary mark (glyph :: rest)) := by
    intro glyph rest ends ih
    rw [behindBoundary_cons_of_endsLine ends, ← ih]
    exact exists_splitLines_iff nonempty unbroken rest
  induction text using lines_induction with
  | nil => simpa [splitLines] using not_behindBoundary_nil mark
  | pair rest ih =>
      have feed := cutAt (.char '\n') (by decide) ih
      rw [splitLines_pair, behindBoundary_cons_of_endsLine (by decide), feed]
      exact (or_iff_right (not_prefix_cons_of_endsLine nonempty unbroken (by decide) rest)).symm
  | boundary first rest ends apart ih =>
      rw [splitLines_cons_of_endsLine ends apart]
      exact cutAt first ends ih
  | inside first rest inside ih =>
      rw [splitLines_cons_of_inside inside]
      refine Iff.trans ?_ (ih.trans (behindBoundary_cons_of_inside inside _).symm)
      cases splitLines rest <;> simp [consHead]

end Mark

end Text

end PatchShelf
