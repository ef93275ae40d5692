/-
Module: PatchShelf.Proofs.Path
Purpose: Fields of texts, and the components that reading a path gives.
Main exports:
  Text.splitOn_append_separator, Text.exists_splitOn_append, Text.splitOn_joinWith,
  Text.joinWith_splitOn, Path.IsPart, Path.isPart_of_mem_ofText, Path.isAbsolute_ofText_iff,
  Path.ofText_toText, Path.eq_of_toText, Path.isPart_of_mem_join
-/
import PatchShelf.Path

/-!
A separator cuts the fields of a text, and what is put together with separators is
cut into the same fields again.  So a component of a path that was read is neither
empty nor a dot, holds no slash, and a path of such components is read back from its
own text.
-/

namespace PatchShelf

namespace Text

variable {separator : Char}

/-- A glyph in front goes to the first of all fields. -/
theorem consHead_append (glyph : Glyph) {fields : List Text} (more : List Text)
    (nonempty : fields ≠ []) : consHead glyph (fields ++ more) = consHead glyph fields ++ more := by
  cases fields with
  | nil => exact absurd rfl nonempty
  | cons field fields => rfl

/-- A separator cuts, whatever stands around it. -/
theorem splitOn_append_separator (left right : Text) :
    splitOn separator (left ++ Glyph.char separator :: right) =
      splitOn separator left ++ splitOn separator right := by
  induction left with
  | nil => simp [splitOn, Glyph.isChar]
  | cons glyph left ih =>
      rw [List.cons_append, splitOn, splitOn, ih]
      by_cases cuts : glyph.isChar separator = true
      · rw [if_pos cuts, if_pos cuts]
        rfl
      · rw [if_neg cuts, if_neg cuts, consHead_append glyph _ (splitOn_ne_nil _ _)]

@[simp] theorem splitOn_separator_cons (rest : Text) :
    splitOn separator (Glyph.char separator :: rest) = [] :: splitOn separator rest :=
  splitOn_append_separator [] rest

/-- Without a separator, the text is one field. -/
theorem splitOn_of_notMem {text : Text} (whole : Glyph.char separator ∉ text) :
    splitOn separator text = [text] := by
  induction text with
  | nil => rfl
  | cons glyph rest ih =>
      rw [List.mem_cons, not_or] at whole
      have keeps : ¬ glyph.isChar separator = true := by
        simpa [Glyph.isChar] using Ne.symm whole.1
      rw [splitOn, if_neg keeps, ih whole.2]
      rfl

/-- No field has the separator. -/
theorem notMem_of_mem_splitOn {text field : Text} (member : field ∈ splitOn separator text) :
    Glyph.char separator ∉ field := by
  induction text generalizing field with
  | nil =>
      obtain rfl := List.mem_singleton.1 member
      simp
  | cons glyph rest ih =>
      rw [splitOn] at member
      by_cases cuts : glyph.isChar separator = true
      · rw [if_pos cuts] at member
        rcases List.mem_cons.1 member with rfl | later
        · simp
        · exact ih later
      · rw [if_neg cuts] at member
        have other : Glyph.char separator ≠ glyph := by
          rintro rfl
          simp [Glyph.isChar] at cuts
        cases fields : splitOn separator rest with
        | nil => exact absurd fields (splitOn_ne_nil _ _)
        | cons first fields' =>
            rw [fields] at member ih
            rcases List.mem_cons.1 member with rfl | later
            · rw [List.mem_cons, not_or]
              exact ⟨other, ih List.mem_cons_self⟩
            · exact ih (List.mem_cons_of_mem _ later)

/-- The fields have no other glyphs than the text. -/
theorem mem_of_mem_splitOn {text field : Text} (member : field ∈ splitOn separator text) :
    ∀ glyph ∈ field, glyph ∈ text := by
  induction text generalizing field with
  | nil =>
      obtain rfl := List.mem_singleton.1 member
      exact fun glyph inside => inside
  | cons glyph rest ih =>
      rw [splitOn] at member
      by_cases cuts : glyph.isChar separator = true
      · rw [if_pos cuts] at member
        rcases List.mem_cons.1 member with rfl | later
        · simp
        · exact fun other inside => List.mem_cons_of_mem _ (ih later other inside)
      · rw [if_neg cuts] at member
        cases fields : splitOn separator rest with
        | nil => exact absurd fields (splitOn_ne_nil _ _)
        | cons first fields' =>
            rw [fields] at member ih
            intro other inside
            rcases List.mem_cons.1 member with rfl | later
            · rcases List.mem_cons.1 inside with rfl | deeper
              · exact List.mem_cons_self
              · exact List.mem_cons_of_mem _ (ih List.mem_cons_self other deeper)
            · exact List.mem_cons_of_mem _ (ih (List.mem_cons_of_mem _ later) other inside)

/-- What is appended without a separator goes to the last field. -/
theorem exists_splitOn_append (text : Text) {tail : Text}
    (whole : Glyph.char separator ∉ tail) :
    ∃ fields last, splitOn separator text = fields ++ [last] ∧
      splitOn separator (text ++ tail) = fields ++ [last ++ tail] := by
  induction text with
  | nil => exact ⟨[], [], rfl, splitOn_of_notMem whole⟩
  | cons glyph rest ih =>
      obtain ⟨fields, last, before, after⟩ := ih
      rw [List.cons_append, splitOn, splitOn, before, after]
      by_cases cuts : glyph.isChar separator = true
      · rw [if_pos cuts, if_pos cuts]
        exact ⟨[] :: fields, last, rfl, rfl⟩
      · rw [if_neg cuts, if_neg cuts]
        cases fields with
        | nil => exact ⟨[], glyph :: last, rfl, rfl⟩
        | cons field fields => exact ⟨(glyph :: field) :: fields, last, rfl, rfl⟩

/-- Fields without separators come back from the text they are put together to. -/
theorem splitOn_joinWith {fields : List Text} (nonempty : fields ≠ [])
    (whole : ∀ field ∈ fields, Glyph.char separator ∉ field) :
    splitOn separator (joinWith [Glyph.char separator] fields) = fields := by
  induction fields with
  | nil => exact absurd rfl nonempty
  | cons field fields ih =>
      have first := whole field List.mem_cons_self
      cases fields with
      | nil => exact splitOn_of_notMem first
      | cons next fields =>
          have later := ih (by simp) fun other member => whole other (List.mem_cons_of_mem _ member)
          rw [joinWith, List.append_assoc, List.singleton_append, splitOn_append_separator,
            splitOn_of_notMem first, later]
          · rfl
          · simp

/-- The fields of a text make up that text again. -/
theorem joinWith_splitOn (text : Text) :
    joinWith [Glyph.char separator] (splitOn separator text) = text := by
  induction text with
  | nil => rfl
  | cons glyph rest ih =>
      obtain ⟨field, fields, parts⟩ := List.exists_cons_of_ne_nil (splitOn_ne_nil separator rest)
      rw [splitOn, parts]
      rw [parts] at ih
      by_cases cuts : glyph.isChar separator = true
      · have same : glyph = Glyph.char separator := by simpa [Glyph.isChar] using cuts
        rw [if_pos cuts, joinWith.eq_3 _ _ _ (by simp), ih, same]
        rfl
      · rw [if_neg cuts, ← ih]
        cases fields with
        | nil => rfl
        | cons next fields => rfl

/-- What is joined ends with the last field. -/
theorem exists_joinWith_eq_append (separator : Text) {fields : List Text} (nonempty : fields ≠ []) :
    ∃ lead, joinWith separator fields = lead ++ fields.getLast nonempty := by
  induction fields with
  | nil => exact absurd rfl nonempty
  | cons field fields ih =>
      cases fields with
      | nil => exact ⟨[], rfl⟩
      | cons next fields =>
          obtain ⟨lead, shown⟩ := ih (by simp)
          refine ⟨field ++ separator ++ lead, ?_⟩
          rw [joinWith.eq_3 _ _ _ (by simp), shown, List.getLast_cons_cons, List.append_assoc,
            List.append_assoc, List.append_assoc]

/-- Nothing is dropped over a tail that is kept. -/
theorem dropEndWhile_append {test : Glyph → Bool} {lead tail : Text} (nonempty : tail ≠ [])
    (kept : ∀ glyph ∈ tail, test glyph = false) :
    (lead ++ tail).dropEndWhile test = lead ++ tail := by
  have first : ∃ glyph more, tail.reverse = glyph :: more :=
    List.exists_cons_of_ne_nil (by simpa using nonempty)
  obtain ⟨glyph, more, backwards⟩ := first
  have stays := kept glyph (List.mem_reverse.1 (by simp [backwards]))
  rw [dropEndWhile, List.reverse_append, backwards, List.cons_append, List.dropWhile_cons, stays]
  have restored : tail = (glyph :: more).reverse := by rw [← backwards, List.reverse_reverse]
  simp [restored]

end Text

namespace Path

/-- What reading a path takes for a component. -/
structure IsPart (part : Text) : Prop where
  nonempty : part ≠ []
  moves : part ≠ here
  whole : Glyph.char '/' ∉ part

/-- A path read from a text has parts that can be. -/
theorem isPart_of_mem_ofText {text part : Text} (member : part ∈ (ofText text).parts) :
    IsPart part := by
  obtain ⟨field, kept⟩ := List.mem_filter.1 member
  simp only [Bool.not_eq_true', Bool.or_eq_false_iff, List.isEmpty_eq_false_iff,
    beq_eq_false_iff_ne] at kept
  exact ⟨kept.1, kept.2, Text.notMem_of_mem_splitOn field⟩

/-- Reading a path keeps all parts that can be parts. -/
theorem filter_parts {parts : List Text} (valid : ∀ part ∈ parts, IsPart part) :
    parts.filter (fun part => !(part.isEmpty || part == here)) = parts := by
  rw [List.filter_eq_self]
  intro part member
  have isPart := valid part member
  simp [isPart.nonempty, isPart.moves]

/-- Without a slash in front, a path is relative. -/
theorem anchorOf_of_head_ne {text : Text} (other : text.head? ≠ some (Glyph.char '/')) :
    anchorOf text = .relative := by
  cases text with
  | nil => rfl
  | cons glyph rest =>
      have differs : glyph ≠ .char '/' := by simpa using other
      rw [anchorOf]
      all_goals
        intro others
        simp_all

/-- Reading a text without a slash gives one component. -/
theorem ofText_of_isPart {text : Text} (isPart : IsPart text) :
    ofText text = ⟨.relative, [text]⟩ := by
  have single : ∀ part ∈ [text], IsPart part := by simpa using isPart
  have anchor : anchorOf text = .relative :=
    anchorOf_of_head_ne fun begins => isPart.whole (List.mem_of_head? begins)
  rw [ofText, anchor, Text.splitOn_of_notMem isPart.whole, filter_parts single]

/-- The text of components with slashes between them does not begin with a slash. -/
theorem head_joinWith_ne {parts : List Text} (valid : ∀ part ∈ parts, IsPart part) :
    (Text.joinWith "/" parts).head? ≠ some (Glyph.char '/') := by
  cases parts with
  | nil => simp [Text.joinWith]
  | cons part rest =>
      have isPart := valid part List.mem_cons_self
      cases part with
      | nil => exact absurd rfl isPart.nonempty
      | cons glyph part =>
          have other : glyph ≠ .char '/' := fun same => isPart.whole (by simp [same])
          cases rest with
          | nil => simpa [Text.joinWith] using other
          | cons next rest => simpa [Text.joinWith] using other

/-- The fields of the components put together, as far as reading a path keeps them. -/
theorem filter_splitOn_joinWith {parts : List Text} (valid : ∀ part ∈ parts, IsPart part) :
    (Text.splitOn '/' (Text.joinWith "/" parts)).filter
      (fun part => !(part.isEmpty || part == here)) = parts := by
  by_cases none : parts = []
  · rw [none]
    rfl
  · have fields := Text.splitOn_joinWith none fun part member => (valid part member).whole
    have slash : ("/" : Text) = [Glyph.char '/'] := rfl
    rw [slash, fields, filter_parts valid]

/-- One slash in front is the root. -/
theorem anchorOf_slash {rest : Text} (other : rest.head? ≠ some (Glyph.char '/')) :
    anchorOf (Glyph.char '/' :: rest) = .root := by
  cases rest with
  | nil => rfl
  | cons glyph rest =>
      rw [anchorOf.eq_def]
      split
      · rfl
      · rename_i same
        simp [(List.cons.inj same).2] at other
      · rfl
      · rename_i none
        exact absurd rfl (none _)

/-- Two slashes in front are a root of their own, which three are not. -/
theorem anchorOf_slash_slash {rest : Text} (other : rest.head? ≠ some (Glyph.char '/')) :
    anchorOf (Glyph.char '/' :: Glyph.char '/' :: rest) = .doubleRoot := by
  cases rest with
  | nil => rfl
  | cons glyph rest =>
      rw [anchorOf.eq_def]
      split
      · rename_i same
        simp [(List.cons.inj (List.cons.inj same).2).2] at other
      · rfl
      · rename_i _ none same
        exact (none _ (List.cons.inj same).2.symm).elim
      · rename_i none
        exact absurd rfl (none _)

/-- The paths that start at the root are those that are written with a slash in front. -/
theorem isAbsolute_ofText_iff {text : Text} :
    (ofText text).isAbsolute = true ↔ text.head? = some (Glyph.char '/') := by
  by_cases first : text.head? = some (Glyph.char '/')
  · refine iff_of_true ?_ first
    obtain ⟨rest, rfl⟩ := List.head?_eq_some_iff.1 first
    by_cases second : rest.head? = some (Glyph.char '/')
    · obtain ⟨more, rfl⟩ := List.head?_eq_some_iff.1 second
      rw [isAbsolute, ofText, anchorOf.eq_def]
      split <;> simp_all
    · rw [isAbsolute, ofText, anchorOf_slash second]
      rfl
  · refine iff_of_false ?_ first
    rw [isAbsolute, ofText, anchorOf_of_head_ne first]
    simp

/-- What is appended without a slash does not change where a path starts. -/
theorem anchorOf_append (text : Text) {tail : Text}
    (other : tail.head? ≠ some (Glyph.char '/')) : anchorOf (text ++ tail) = anchorOf text := by
  by_cases first : text.head? = some (Glyph.char '/')
  · obtain ⟨rest, rfl⟩ := List.head?_eq_some_iff.1 first
    by_cases second : rest.head? = some (Glyph.char '/')
    · obtain ⟨more, rfl⟩ := List.head?_eq_some_iff.1 second
      cases more with
      | nil => exact anchorOf_slash_slash other
      | cons glyph more =>
          by_cases third : glyph = Glyph.char '/'
          · subst third
            rfl
          · rw [anchorOf_slash_slash (by simpa using third)]
            exact anchorOf_slash_slash (by simpa using third)
    · rw [anchorOf_slash second]
      cases rest with
      | nil => exact anchorOf_slash other
      | cons glyph more => exact anchorOf_slash second
  · rw [anchorOf_of_head_ne first]
    cases text with
    | nil => exact anchorOf_of_head_ne other
    | cons glyph rest => exact anchorOf_of_head_ne first

/-- An absolute path is read back from its text. -/
theorem ofText_toText {path : Path} (absolute : path.isAbsolute = true)
    (valid : ∀ part ∈ path.parts, IsPart part) : ofText path.toText = path := by
  obtain ⟨anchor, parts⟩ := path
  have begins := head_joinWith_ne valid
  have kept := filter_splitOn_joinWith valid
  simp only at begins kept
  cases anchor with
  | relative => simp [isAbsolute] at absolute
  | root =>
      have shown : toText ⟨.root, parts⟩ = Glyph.char '/' :: Text.joinWith "/" parts := rfl
      rw [shown, ofText, anchorOf_slash begins, Text.splitOn_separator_cons,
        List.filter_cons_of_neg (by simp), kept]
  | doubleRoot =>
      have shown : toText ⟨.doubleRoot, parts⟩ =
          Glyph.char '/' :: Glyph.char '/' :: Text.joinWith "/" parts := rfl
      rw [shown, ofText, anchorOf_slash_slash begins, Text.splitOn_separator_cons,
        Text.splitOn_separator_cons, List.filter_cons_of_neg (by simp),
        List.filter_cons_of_neg (by simp), kept]

/-- To join an absolute path is to go there. -/
theorem join_of_isAbsolute (base : Path) {other : Path} (absolute : other.isAbsolute = true) :
    base / other = other :=
  if_pos absolute

/-- To join a relative one is to go on from the base. -/
theorem join_of_not_isAbsolute (base : Path) {other : Path} (relative : ¬ other.isAbsolute = true) :
    base / other = ⟨base.anchor, base.parts ++ other.parts⟩ :=
  if_neg relative

/-- Below an absolute base, everything is absolute. -/
theorem isAbsolute_join {base : Path} (absolute : base.isAbsolute = true) (other : Path) :
    (base / other).isAbsolute = true := by
  show (join base other).isAbsolute = true
  rw [join]
  split
  · assumption
  · exact absolute

/-- The parts come from either path. -/
theorem mem_of_mem_join {base other : Path} {part : Text} (member : part ∈ (base / other).parts) :
    part ∈ base.parts ∨ part ∈ other.parts := by
  replace member : part ∈ (join base other).parts := member
  rw [join] at member
  split at member
  · exact .inr member
  · exact List.mem_append.1 member

/-- The parts of a joined path can be parts, if those of the base can. -/
theorem isPart_of_mem_join {base : Path} (valid : ∀ part ∈ base.parts, IsPart part) (text : Text) :
    ∀ part ∈ (base / ofText text).parts, IsPart part := by
  intro part member
  rcases mem_of_mem_join member with above | below
  · exact valid part above
  · exact isPart_of_mem_ofText below

/-- Absolute paths are told apart by their texts. -/
theorem eq_of_toText {path other : Path} (absolute : path.isAbsolute = true)
    (valid : ∀ part ∈ path.parts, IsPart part) (otherAbsolute : other.isAbsolute = true)
    (otherValid : ∀ part ∈ other.parts, IsPart part) (same : path.toText = other.toText) :
    path = other := by
  rw [← ofText_toText absolute valid, same, ofText_toText otherAbsolute otherValid]

end Path

end PatchShelf
