/-
Module: PatchShelf.Proofs.FileTree.Locate
Purpose: Absolute paths as lists of names, and the entries of a directory by path.
Main exports:
  Path.names, Path.Fits, Path.child, FileTree.locate_eq_walk, FileTree.Leads,
  FileTree.IsEntryName, FileTree.exists_walk_below, FileTree.locate_child,
  FileTree.locate_of_keepsWays
-/
import PatchShelf.Proofs.FileTree.Walk
import PatchShelf.Proofs.Text.Utf8

/-!
A path is walked by its bytes.  What the walk meets are the names between the
slashes, so a path with one more component is walked by the same names and one
more.  If a path leads to a directory, its child paths lead to the entries of that
directory.
-/

namespace PatchShelf

namespace FileTree

/-- The byte between the names of a path. -/
def slash : UInt8 := 0x2F

/-- There is always one name, if an empty one. -/
theorem splitNames_ne_nil (bytes : Bytes) : splitNames bytes ≠ [] := by
  cases bytes with
  | nil => simp [splitNames]
  | cons byte rest =>
      simp only [splitNames]
      split
      · simp
      · split <;> simp

/-- A slash cuts, whatever stands around it. -/
theorem splitNames_append_slash (left right : Bytes) :
    splitNames (left ++ slash :: right) = splitNames left ++ splitNames right := by
  induction left with
  | nil => simp [splitNames, slash]
  | cons byte left ih =>
      rw [List.cons_append, splitNames, splitNames]
      split
      · rw [ih, List.cons_append]
      · rw [ih]
        cases fields : splitNames left with
        | nil => exact absurd fields (splitNames_ne_nil left)
        | cons name names => rfl

/-- Without a slash, the bytes are one name. -/
theorem splitNames_of_notMem {bytes : Bytes} (whole : slash ∉ bytes) :
    splitNames bytes = [bytes] := by
  induction bytes with
  | nil => rfl
  | cons byte rest ih =>
      rw [List.mem_cons, not_or] at whole
      have other : byte ≠ 0x2F := Ne.symm whole.1
      rw [splitNames, if_neg other, ih whole.2]

/-- No name has a slash. -/
theorem slash_notMem_of_mem_splitNames {bytes : Bytes} {name : FileName}
    (field : name ∈ splitNames bytes) : slash ∉ name := by
  induction bytes generalizing name with
  | nil =>
      obtain rfl := List.mem_singleton.1 field
      simp
  | cons byte rest ih =>
      simp only [splitNames] at field
      split at field
      · rcases List.mem_cons.1 field with rfl | later
        · simp
        · exact ih later
      · rename_i other
        cases fields : splitNames rest with
        | nil => exact absurd fields (splitNames_ne_nil rest)
        | cons first names =>
            rw [fields] at field ih
            rcases List.mem_cons.1 field with rfl | later
            · rw [List.mem_cons, not_or]
              exact ⟨fun same => other same.symm, ih List.mem_cons_self⟩
            · exact ih (List.mem_cons_of_mem _ later)

end FileTree

namespace Text

/-- The encoding of a text holds a slash exactly if the text does. -/
theorem slash_mem_encode (text : Text) :
    FileTree.slash ∈ Utf8.encode text ↔ Glyph.char '/' ∈ text :=
  Utf8.mem_encode_ascii (by decide) text

/-- A text holds a character if it is among its glyphs. -/
theorem holds_iff (text : Text) (scalar : Char) :
    text.holds scalar = true ↔ Glyph.char scalar ∈ text := by
  simp [holds, Glyph.isChar]

/-- A last field stands behind one more separator. -/
theorem joinWith_append_singleton (separator : Text) {fields : List Text} (last : Text)
    (nonempty : fields ≠ []) :
    joinWith separator (fields ++ [last]) = joinWith separator fields ++ separator ++ last := by
  induction fields with
  | nil => exact absurd rfl nonempty
  | cons field fields ih =>
      cases fields with
      | nil => simp [joinWith]
      | cons next fields =>
          have later := ih (by simp)
          simp only [List.cons_append, joinWith, List.append_assoc] at later ⊢
          rw [later]

end Text

namespace Path

/-- The names between the slashes of a path. -/
def names (path : Path) : List FileName :=
  FileTree.splitNames (Utf8.encode path.toText)

/-- Can the system take the path at all: no NUL, and not too long. -/
structure Fits (path : Path) : Prop where
  noNull : path.toText.holds '\x00' = false
  short : (Utf8.encode path.toText).length ≤ FileTree.longestPath

/-- The path of an entry in the directory of a path. -/
def child (path : Path) (part : Text) : Path :=
  ⟨path.anchor, path.parts ++ [part]⟩

@[simp] theorem child_anchor (path : Path) (part : Text) :
    (path.child part).anchor = path.anchor := rfl

@[simp] theorem child_parts (path : Path) (part : Text) :
    (path.child part).parts = path.parts ++ [part] := rfl

@[simp] theorem parent_child (path : Path) (part : Text) : (path.child part).parent = path := by
  simp [parent, child]

/-- A child tells its parent and its own part. -/
theorem child_inj {path other : Path} {part last : Text}
    (same : path.child part = other.child last) : path = other ∧ part = last := by
  have above := congrArg parent same
  rw [parent_child, parent_child] at above
  have ends := congrArg (fun path => path.parts.getLast?) same
  exact ⟨above, by simpa [child] using ends⟩

@[simp] theorem isAbsolute_child (path : Path) (part : Text) :
    (path.child part).isAbsolute = path.isAbsolute := rfl

/-- Below a path that has a part, a child is written behind a slash. -/
theorem toText_child {path : Path} (part : Text) (below : path.parts ≠ []) :
    (path.child part).toText = path.toText ++ Glyph.char '/' :: part := by
  simp only [toText, child_anchor, child_parts, below, and_false, if_false,
    List.append_ne_nil_of_right_ne_nil _ (List.cons_ne_nil part []),
    Text.joinWith_append_singleton _ _ below, List.append_assoc]
  rfl

/-- Below a path that has a part, a child has one name more, if its own part has no slash. -/
theorem names_child {path : Path} {part : Text} (below : path.parts ≠ [])
    (whole : Glyph.char '/' ∉ part) :
    (path.child part).names = path.names ++ [Utf8.encode part] := by
  have single : FileTree.splitNames (Utf8.encode part) = [Utf8.encode part] := by
    refine FileTree.splitNames_of_notMem ?_
    rwa [Text.slash_mem_encode]
  rw [names, toText_child part below, Utf8.encode_append]
  rw [show Utf8.encode (Glyph.char '/' :: part) = FileTree.slash :: Utf8.encode part from rfl]
  rw [FileTree.splitNames_append_slash, single]
  rfl

/-- The path of what lies deeper below a path. -/
def below (path : Path) (more : List Text) : Path :=
  ⟨path.anchor, path.parts ++ more⟩

/-- To go below by several parts goes to the child first. -/
theorem below_cons (path : Path) (part : Text) (more : List Text) :
    path.below (part :: more) = (path.child part).below more := by
  simp [below, child]

/-- The last part is that of a child of what the others lead to. -/
theorem below_append_singleton (path : Path) (more : List Text) (part : Text) :
    path.below (more ++ [part]) = (path.below more).child part := by
  simp [below, child]

/-- The names are those above, and one for each part below. -/
theorem names_below {path : Path} {more : List Text} (filled : path.parts ≠ [])
    (whole : ∀ part ∈ more, Glyph.char '/' ∉ part) :
    (path.below more).names = path.names ++ more.map Utf8.encode := by
  induction more generalizing path with
  | nil => simp [below]
  | cons part more ih =>
      have later : (path.child part).parts ≠ [] := by simp
      rw [below_cons, ih later fun other member => whole other (List.mem_cons_of_mem _ member),
        names_child filled (whole part List.mem_cons_self)]
      simp

/-- The names in a text of components with slashes between them are the components. -/
theorem splitNames_joinWith {parts : List Text} (nonempty : parts ≠ [])
    (whole : ∀ part ∈ parts, Glyph.char '/' ∉ part) :
    FileTree.splitNames (Utf8.encode (Text.joinWith "/" parts)) = parts.map Utf8.encode := by
  have single : ∀ part : Text, Glyph.char '/' ∉ part →
      FileTree.splitNames (Utf8.encode part) = [Utf8.encode part] := by
    intro part whole
    refine FileTree.splitNames_of_notMem ?_
    rwa [Text.slash_mem_encode]
  induction parts with
  | nil => exact absurd rfl nonempty
  | cons part parts ih =>
      have first := single part (whole part List.mem_cons_self)
      cases parts with
      | nil => exact first
      | cons next parts =>
          have later := ih (List.cons_ne_nil _ _) fun other member =>
            whole other (List.mem_cons_of_mem _ member)
          have slash : ("/" : Text) = [Glyph.char '/'] := rfl
          rw [Text.joinWith.eq_3 _ _ _ (by simp), List.append_assoc, Utf8.encode_append,
            Utf8.encode_append, slash]
          rw [show Utf8.encode [Glyph.char '/'] = [FileTree.slash] from rfl, List.singleton_append,
            FileTree.splitNames_append_slash, first, ← slash, later]
          rfl

/-- A child is longer by a slash and its part, in bytes. -/
theorem length_encode_child {path : Path} (part : Text) (below : path.parts ≠ []) :
    (Utf8.encode (path.child part).toText).length =
      (Utf8.encode path.toText).length + 1 + (Utf8.encode part).length := by
  rw [toText_child part below, Utf8.encode_append, List.length_append,
    show Utf8.encode (Glyph.char '/' :: part) = FileTree.slash :: Utf8.encode part from rfl,
    List.length_cons]
  omega

/-- A NUL in a child is one in its parent or in its part. -/
theorem holds_toText_child {path : Path} (part : Text) (below : path.parts ≠ []) :
    (path.child part).toText.holds '\x00' =
      (path.toText.holds '\x00' || part.holds '\x00') := by
  have other : (Glyph.char '/' == Glyph.char '\x00') = false := by decide
  rw [toText_child part below]
  simp [Text.holds, Glyph.isChar, other]

/-- A child has no NUL if neither its parent nor its part has one. -/
theorem noNull_child {path : Path} {part : Text} (clean : path.toText.holds '\x00' = false)
    (own : part.holds '\x00' = false) : (path.child part).toText.holds '\x00' = false := by
  by_cases below : path.parts = []
  · obtain ⟨anchor, parts⟩ := path
    obtain rfl : parts = [] := below
    have other : (Glyph.char '/').isChar '\x00' = false := by decide
    have shown : (Path.child ⟨anchor, []⟩ part).toText = anchor.toText ++ part := by
      simp [toText, child, Text.joinWith]
    rw [shown, Text.holds, List.any_append, Bool.or_eq_false_iff]
    refine ⟨?_, own⟩
    cases anchor with
    | relative => rfl
    | root => decide
    | doubleRoot => decide
  · rw [holds_toText_child part below, clean, own]
    rfl

/-- A child without a NUL has a parent without one. -/
theorem noNull_of_child {path : Path} {part : Text}
    (clean : (path.child part).toText.holds '\x00' = false) :
    path.toText.holds '\x00' = false := by
  by_cases below : path.parts = []
  · obtain ⟨anchor, parts⟩ := path
    obtain rfl : parts = [] := below
    cases anchor with
    | relative => decide
    | root => decide
    | doubleRoot => decide
  · rw [holds_toText_child part below, Bool.or_eq_false_iff] at clean
    exact clean.1

/-- By induction on the parts, nothing below a clean path has a NUL if no part has. -/
theorem noNull_below {path : Path} {more : List Text}
    (clean : path.toText.holds '\x00' = false)
    (own : ∀ part ∈ more, part.holds '\x00' = false) :
    (path.below more).toText.holds '\x00' = false := by
  induction more generalizing path with
  | nil => simpa [below] using clean
  | cons part more ih =>
      rw [below_cons]
      exact ih (noNull_child clean (own part List.mem_cons_self)) fun other member =>
        own other (List.mem_cons_of_mem _ member)

/-- If a child path fits, so does the path itself. -/
theorem Fits.of_child {path : Path} {part : Text} (absolute : path.isAbsolute = true)
    (fits : (path.child part).Fits) : path.Fits := by
  by_cases below : path.parts = []
  · obtain ⟨anchor, parts⟩ := path
    obtain rfl : parts = [] := below
    cases anchor with
    | relative => simp [isAbsolute] at absolute
    | root => exact ⟨by decide, by decide⟩
    | doubleRoot => exact ⟨by decide, by decide⟩
  · have noNull := fits.noNull
    have short := fits.short
    rw [holds_toText_child part below, Bool.or_eq_false_iff] at noNull
    rw [length_encode_child part below] at short
    exact ⟨noNull.1, by omega⟩

/-- The text of an absolute path begins with a slash. -/
theorem exists_toText_of_isAbsolute {path : Path} (absolute : path.isAbsolute = true) :
    ∃ rest, path.toText = Glyph.char '/' :: rest := by
  obtain ⟨anchor, parts⟩ := path
  cases anchor with
  | relative => simp [isAbsolute] at absolute
  | root => exact ⟨_, rfl⟩
  | doubleRoot => exact ⟨_, rfl⟩

end Path

namespace FileTree

/-- A walk along an absolute path starts at the root. -/
theorem startOf_of_isAbsolute (base : Location) {path : Path}
    (absolute : path.isAbsolute = true) : startOf base (Utf8.encode path.toText) = [] := by
  obtain ⟨rest, begins⟩ := Path.exists_toText_of_isAbsolute absolute
  rw [startOf, begins]
  rfl

/-- A path that leads anywhere fits, and its names are walked. -/
theorem walk_of_locate {tree : FileTree} {base : Location} {aim : WalkAim} {path : Path}
    {spot : Spot} (located : tree.locate base aim path = .ok spot) :
    path.Fits ∧
      tree.walk aim mostLinks (startOf base (Utf8.encode path.toText)) path.names = .ok spot := by
  rw [locate, locateText] at located
  split at located
  · cases located
  · rename_i noNull
    rw [walkBytes] at located
    split at located
    · cases located
    · rename_i short
      refine ⟨⟨by simpa using noNull, Nat.not_lt.1 short⟩, ?_⟩
      split at located
      · cases located
      · rw [Path.names]
        cases walked : tree.walk aim mostLinks (startOf base (Utf8.encode path.toText))
            (splitNames (Utf8.encode path.toText)) with
        | error errno =>
            rw [walked] at located
            cases located
        | ok other =>
            rw [walked] at located
            obtain rfl := Except.ok.inj located
            rfl

/-- Without a NUL in a path, only the system can refuse it. -/
theorem exists_system_of_locate {tree : FileTree} {base : Location} {aim : WalkAim} {path : Path}
    {fault : Fault} (noNull : path.toText.holds '\x00' = false)
    (refused : tree.locate base aim path = .error fault) :
    ∃ errno, fault = .system errno path.toText := by
  rw [locate, locateText, noNull] at refused
  cases walked : tree.walkBytes base aim (Utf8.encode path.toText) with
  | error errno =>
      rw [walked] at refused
      exact ⟨errno, (Except.error.inj refused).symm⟩
  | ok spot =>
      rw [walked] at refused
      cases refused

/-- An absolute path that leads anywhere is walked from the root. -/
theorem fits_of_locate {tree : FileTree} {base : Location} {aim : WalkAim} {path : Path}
    {spot : Spot} (absolute : path.isAbsolute = true)
    (located : tree.locate base aim path = .ok spot) :
    path.Fits ∧ tree.walk aim mostLinks [] path.names = .ok spot := by
  have walked := walk_of_locate located
  rwa [startOf_of_isAbsolute base absolute] at walked

/-- An absolute path that fits is walked by its names from the root. -/
theorem locate_eq_walk (tree : FileTree) (base : Location) (aim : WalkAim) {path : Path}
    (absolute : path.isAbsolute = true) (fits : path.Fits) :
    tree.locate base aim path =
      (tree.walk aim mostLinks [] path.names).mapError fun errno => .system errno path.toText := by
  have filled : Utf8.encode path.toText ≠ [] := by
    obtain ⟨rest, begins⟩ := Path.exists_toText_of_isAbsolute absolute
    rw [begins]
    exact List.cons_ne_nil _ _
  rw [locate, locateText, if_neg (by simp [fits.noNull]), walkBytes,
    if_neg (Nat.not_lt.2 fits.short), if_neg filled, startOf_of_isAbsolute base absolute,
    Path.names]

/-- Where an absolute path leads does not depend on the working directory. -/
theorem locate_base (tree : FileTree) (base : Location) (aim : WalkAim) {path : Path}
    (absolute : path.isAbsolute = true) : tree.locate base aim path = tree.locate [] aim path := by
  rw [locate, locate, locateText, locateText, walkBytes, walkBytes,
    startOf_of_isAbsolute base absolute, startOf_of_isAbsolute [] absolute]

/-- A path leads to the same spot in a tree that keeps the ways and shows the same there. -/
theorem locate_of_keepsWays {old new : FileTree} (keeps : KeepsWays old new) {aim : WalkAim}
    {path : Path} {spot : Spot} (absolute : path.isAbsolute = true)
    (located : old.locate [] aim path = .ok spot) (kept : spot.IsKept new) :
    new.locate [] aim path = .ok spot := by
  obtain ⟨fits, walked⟩ := fits_of_locate absolute located
  rw [locate_eq_walk new [] aim absolute fits, walk_of_keepsWays keeps walked kept]
  rfl

/-- What stands in the new tree where a path of the old one ended is what the path
leads to. -/
theorem locate_target_of_spot {old new : FileTree} (keeps : KeepsWays old new) {aim : WalkAim}
    {path : Path} {spot : Spot} {entry : Entry} (absolute : path.isAbsolute = true)
    (located : old.locate [] aim path = .ok spot) (noDirectory : spot.isDirectory = false)
    (stands : new.get? spot.location = some entry) (noLink : entry.isLink = false) :
    new.locate [] .target path = .ok (.found spot.location entry) := by
  obtain ⟨fits, walked⟩ := fits_of_locate absolute located
  rw [locate_eq_walk new [] .target absolute fits,
    walk_target_of_spot keeps walked noDirectory stands noLink]
  rfl

/-- What a path is found to lead to holds in the tree, if the walk starts in a directory. -/
theorem holds_of_locate {tree : FileTree} (grounded : tree.Grounded) {base : Location}
    {aim : WalkAim} {path : Path} {spot : Spot}
    (start : tree.get? (startOf base (Utf8.encode path.toText)) = some .directory)
    (located : tree.locate base aim path = .ok spot) : tree.Holds spot :=
  holds_of_walk grounded start (walk_of_locate located).2

/-- An absolute path starts at the root, which is one. -/
theorem holds_of_locate_absolute {tree : FileTree} (grounded : tree.Grounded) {aim : WalkAim}
    {path : Path} {spot : Spot} (absolute : path.isAbsolute = true)
    (located : tree.locate [] aim path = .ok spot) : tree.Holds spot := by
  refine holds_of_locate grounded ?_ located
  rw [startOf_of_isAbsolute [] absolute]
  rfl

/-- A component that names an entry of a directory. -/
structure IsEntryName (part : Text) : Prop where
  whole : Glyph.char '/' ∉ part
  plain : FileName.IsPlain (Utf8.encode part)

/-- The path leads to the directory at a location. -/
def Leads (tree : FileTree) (path : Path) (place : Location) : Prop :=
  tree.locate [] .target path = .ok (.found place .directory)

/-- A change that keeps the ways keeps where a path leads. -/
theorem Leads.of_keepsWays {old new : FileTree} (keeps : KeepsWays old new) {path : Path}
    {place : Location} (absolute : path.isAbsolute = true) (leads : old.Leads path place) :
    new.Leads path place :=
  locate_of_keepsWays keeps absolute leads (.inl rfl)

/-- An empty name leads nowhere else. -/
theorem advance_nil_cons (tree : FileTree) (aim : WalkAim) (directory : Location)
    (names : List FileName) :
    tree.advance aim directory ([] :: names) = tree.advance aim directory names := by
  have stays : staysHere [] = true := rfl
  rw [advance, if_pos stays]

/-- Below a directory that a path leads to, the walk of a longer path starts there. -/
theorem exists_walk_below {tree : FileTree} (aim : WalkAim) {path : Path} {more : List Text}
    {place : Location} (absolute : path.isAbsolute = true) (nonempty : more ≠ [])
    (names : ∀ part ∈ more, IsEntryName part) (leads : tree.Leads path place) :
    ∃ fewer, tree.walk aim mostLinks [] (path.below more).names =
      tree.walk aim fewer place (more.map Utf8.encode) := by
  obtain ⟨-, walked⟩ := fits_of_locate absolute leads
  by_cases below : path.parts = []
  · -- The names of the root's own path are empty and lead nowhere else.
    obtain ⟨anchor, parts⟩ := path
    obtain rfl : parts = [] := below
    have fields := Path.splitNames_joinWith nonempty fun part member => (names part member).whole
    refine ⟨mostLinks, ?_⟩
    cases anchor with
    | relative => simp [Path.isAbsolute] at absolute
    | root =>
        have shown : (Path.mk .root []).names = [[], []] := rfl
        rw [shown, walk, advance_nil_cons, advance_nil_cons, advance] at walked
        obtain rfl : [] = place := by simpa using walked
        have first : (Path.below ⟨.root, []⟩ more).names = [] :: more.map Utf8.encode := by
          rw [← fields]
          rfl
        rw [first, walk, walk, advance_nil_cons]
    | doubleRoot =>
        have shown : (Path.mk .doubleRoot []).names = [[], [], []] := rfl
        rw [shown, walk, advance_nil_cons, advance_nil_cons, advance_nil_cons, advance] at walked
        obtain rfl : [] = place := by simpa using walked
        have first : (Path.below ⟨.doubleRoot, []⟩ more).names =
            [] :: [] :: more.map Utf8.encode := by
          rw [← fields]
          rfl
        rw [first, walk, walk, advance_nil_cons, advance_nil_cons]
  · rw [Path.names_below below fun part member => (names part member).whole]
    refine exists_walk_append aim ?_ walked
    cases more with
    | nil => exact absurd rfl nonempty
    | cons part more => exact goesOn_cons (names part List.mem_cons_self).plain _

/-- A path leads to one place. -/
theorem Leads.unique {tree : FileTree} {path : Path} {one two : Location}
    (first : tree.Leads path one) (second : tree.Leads path two) : one = two := by
  have same := first.symm.trans second
  exact (Spot.found.inj (Except.ok.inj same)).1

/-- Below a directory that a path leads to, the last name of a child path decides. -/
theorem exists_walk_child {tree : FileTree} (aim : WalkAim) {path : Path} {part : Text}
    {place : Location} (absolute : path.isAbsolute = true) (name : IsEntryName part)
    (leads : tree.Leads path place) :
    ∃ fewer, tree.walk aim mostLinks [] (path.child part).names =
      tree.walk aim fewer place [Utf8.encode part] :=
  exists_walk_below aim absolute (List.cons_ne_nil part []) (by simpa using name) leads

/-- If a path leads to a directory, its child paths lead to the entries of the
directory, unless these are links that have to be followed. -/
theorem locate_child {tree : FileTree} {aim : WalkAim} {path : Path} {part : Text}
    {place : Location} (absolute : path.isAbsolute = true) (name : IsEntryName part)
    (fits : (path.child part).Fits)
    (leads : tree.Leads path place)
    (noLink : aim = .entry ∨
      ∀ target, tree.get? (Utf8.encode part :: place) ≠ some (.link target)) :
    tree.locate [] aim (path.child part) =
      if longestName < (Utf8.encode part).length then
        .error (.system .nameTooLong (path.child part).toText)
      else .ok (tree.spotIn place (Utf8.encode part)) := by
  obtain ⟨fewer, same⟩ := exists_walk_child aim absolute name leads
  rw [locate_eq_walk tree [] aim (path.isAbsolute_child part ▸ absolute) fits, same,
    walk_singleton name.plain noLink]
  split <;> rfl

/-- A child path that leads anywhere leads to the entry of its name. -/
theorem eq_spotIn_of_locate_child {tree : FileTree} {aim : WalkAim} {path : Path} {part : Text}
    {place : Location} {spot : Spot} (absolute : path.isAbsolute = true)
    (name : IsEntryName part)
    (leads : tree.Leads path place)
    (noLink : aim = .entry ∨
      ∀ target, tree.get? (Utf8.encode part :: place) ≠ some (.link target))
    (located : tree.locate [] aim (path.child part) = .ok spot) :
    spot = tree.spotIn place (Utf8.encode part) ∧
      (Utf8.encode part).length ≤ longestName := by
  have fits := (fits_of_locate (path.isAbsolute_child part ▸ absolute) located).1
  rw [locate_child absolute name fits leads noLink] at located
  split at located
  · cases located
  · rename_i short
    exact ⟨(Except.ok.inj located).symm, Nat.not_lt.1 short⟩

end FileTree

end PatchShelf
