/-
Module: PatchShelf.Proofs.FileTree.Sound
Purpose: Trees whose entries stand in directories and bear names that paths can spell.
Main exports:
  FileName.IsEntry, Location.encode_toPath, Location.fits_toPath_iff, FileTree.Sound,
  FileTree.isEntry_of_locate, FileTree.Sound.locate_toPath, FileTree.Sound.makeDirectory
-/
import PatchShelf.Proofs.FileTree.Access

/-!
A file tree of a system has no entries outside directories, and no entry is called
`.` or `..` or holds a slash.  In such a tree the path that names a location leads
to it, and what a path leads to bears such names as well.
-/

namespace PatchShelf

/-- A name that an entry of a directory can have. -/
structure FileName.IsEntry (name : FileName) : Prop extends FileName.IsPlain name where
  short : name.length ≤ FileTree.longestName
  whole : FileTree.slash ∉ name

/-- The path of an entry is a child path of the path of its directory. -/
theorem Location.toPath_cons (name : FileName) (above : Location) :
    Location.toPath (name :: above) = (Location.toPath above).child (Utf8.decodeEscaped name) := by
  simp [toPath, Path.child]

@[simp] theorem Location.isAbsolute_toPath (location : Location) :
    location.toPath.isAbsolute = true := rfl

/-- The bytes of the path of a location other than the root. -/
def Location.spelled (location : Location) : Bytes :=
  location.reverse.flatMap fun name => FileTree.slash :: name

/-- The path to a location is spelled by its names. -/
theorem Location.encode_toPath {location : Location} (below : location ≠ []) :
    Utf8.encode location.toPath.toText = location.spelled := by
  have slash (name : FileName) : Utf8.encode (Glyph.char '/' :: Utf8.decodeEscaped name) =
      FileTree.slash :: name :=
    congrArg (FileTree.slash :: ·) (Utf8.encode_decodeEscaped name)
  induction location with
  | nil => exact absurd rfl below
  | cons name above ih =>
      have last : Location.spelled (name :: above) =
          Location.spelled above ++ FileTree.slash :: name := by
        simp [Location.spelled]
      cases above with
      | nil =>
          have single : (Location.toPath [name]).toText =
              Glyph.char '/' :: Utf8.decodeEscaped name := rfl
          rw [single, slash, last]
          rfl
      | cons next above =>
          have inside : (Location.toPath (next :: above)).parts ≠ [] := by simp [Location.toPath]
          rw [Location.toPath_cons, Path.toText_child _ inside, Utf8.encode_append, slash,
            ih (List.cons_ne_nil _ _), last]

/-- A name adds its length and a slash. -/
theorem Location.length_spelled_cons (name : FileName) (above : Location) :
    (Location.spelled (name :: above)).length =
      name.length + 1 + (Location.spelled above).length := by
  simp [spelled, Nat.add_comm]

/-- Its path is clean if its names are. -/
theorem Location.noNull_toPath_iff {location : Location} (below : location ≠ []) :
    location.toPath.toText.holds '\x00' = false ↔ ∀ name ∈ location, 0 ∉ name := by
  have null : 0 ∈ Utf8.encode location.toPath.toText ↔
      Glyph.char '\x00' ∈ location.toPath.toText :=
    Utf8.mem_encode_ascii (by decide) _
  have inside : 0 ∈ location.spelled ↔ ∃ name ∈ location, 0 ∈ name := by
    have other : (0 : UInt8) ≠ FileTree.slash := by decide
    simp [spelled, other]
  rw [← Bool.not_eq_true, Text.holds_iff, ← null, Location.encode_toPath below, inside]
  simp

/-- The system takes it if it is clean and not too long. -/
theorem Location.fits_toPath_iff {location : Location} (below : location ≠ []) :
    location.toPath.Fits ↔ (∀ name ∈ location, 0 ∉ name) ∧
      location.spelled.length ≤ FileTree.longestPath := by
  rw [← Location.noNull_toPath_iff below, ← Location.encode_toPath below]
  exact ⟨fun fits => ⟨fits.noNull, fits.short⟩, fun both => ⟨both.1, both.2⟩⟩

namespace FileTree

/-- What names an entry in bytes names one as a part of a path. -/
theorem isEntryName_decodeEscaped {name : FileName} (entry : name.IsEntry) :
    IsEntryName (Utf8.decodeEscaped name) := by
  refine ⟨?_, ?_⟩
  · rw [← Text.slash_mem_encode, Utf8.encode_decodeEscaped]
    exact entry.whole
  · rw [Utf8.encode_decodeEscaped]
    exact entry.toIsPlain

/-- The other way round, it must be short enough. -/
theorem IsEntryName.isEntry {part : Text} (name : IsEntryName part)
    (short : (Utf8.encode part).length ≤ longestName) : FileName.IsEntry (Utf8.encode part) :=
  ⟨name.plain, short, by rw [Text.slash_mem_encode]; exact name.whole⟩

/-- Every entry stands in a directory and bears a name that an entry can have. -/
structure Sound (tree : FileTree) : Prop where
  grounded : tree.Grounded
  named : ∀ name directory, tree.get? (name :: directory) ≠ none → FileName.IsEntry name

instance (name : FileName) : Decidable (FileName.IsEntry name) :=
  decidable_of_iff
    ((staysHere name = false ∧ name ≠ upName) ∧ name.length ≤ longestName ∧ slash ∉ name)
    ⟨fun valid => ⟨⟨valid.1.1, valid.1.2⟩, valid.2.1, valid.2.2⟩,
      fun valid => ⟨⟨valid.moves, valid.descends⟩, valid.short, valid.whole⟩⟩

/-- Can an entry stand at the location, as far as its name and what is above go? -/
def IsPlace (tree : FileTree) : Location → Prop
  | [] => True
  | name :: directory => FileName.IsEntry name ∧ tree.get? directory = some .directory

instance (tree : FileTree) (location : Location) : Decidable (tree.IsPlace location) :=
  match location with
  | [] => inferInstanceAs (Decidable True)
  | name :: directory =>
    inferInstanceAs (Decidable (FileName.IsEntry name ∧ tree.get? directory = some .directory))

/-- A tree is sound if all its entries stand at places for entries. -/
theorem sound_iff (tree : FileTree) :
    tree.Sound ↔ ∀ location ∈ tree.entries.keys, tree.IsPlace location := by
  constructor
  · intro sound location member
    cases location with
    | nil => trivial
    | cons name directory =>
        have stands := (tree.get?_ne_none_iff name directory).2 member
        exact ⟨sound.named name directory stands, sound.grounded name directory stands⟩
  · intro places
    refine ⟨fun name directory stands => ?_, fun name directory stands => ?_⟩
    · exact (places _ ((tree.get?_ne_none_iff name directory).1 stands)).2
    · exact (places _ ((tree.get?_ne_none_iff name directory).1 stands)).1

instance (tree : FileTree) : Decidable tree.Sound :=
  decidable_of_iff _ tree.sound_iff.symm

/-! ### The names that a walk meets -/

/-- Names that hold no slash. -/
def AreWhole (names : List FileName) : Prop :=
  ∀ name ∈ names, slash ∉ name

/-- The names between slashes have no slash. -/
theorem areWhole_splitNames (bytes : Bytes) : AreWhole (splitNames bytes) :=
  fun _ field => slash_notMem_of_mem_splitNames field

/-- The name that a spot lacks is one that an entry can have. -/
def Spot.LacksEntry : Spot → Prop
  | .found _ _ => True
  | .missing _ name => FileName.IsEntry name

/-- What a stride leaves to do names entries only. -/
def Stride.NamesEntries : Stride → Prop
  | .ended spot => Spot.LacksEntry spot
  | .linked _ _ rest => AreWhole rest

/-- The names that a walk still has in front of it are the last of those it had. -/
theorem Traverses.left_suffix {tree : FileTree} {aim : WalkAim} {directory place : Location}
    {names left : List FileName} (passed : tree.Traverses aim place left directory names) :
    left <:+ names := by
  induction passed with
  | here => exact List.suffix_rfl
  | stay stays onward ih => exact ih.trans (List.suffix_cons _ _)
  | up onward ih => exact ih.trans (List.suffix_cons _ _)
  | down admitted stands onward ih => exact ih.trans (List.suffix_cons _ _)

/-- A step of a walk comes to names that an entry can have. -/
theorem namesEntries_of_advance {tree : FileTree} {aim : WalkAim} {directory : Location}
    {names : List FileName} {stride : Stride} (whole : AreWhole names)
    (walked : tree.advance aim directory names = .ok stride) : Stride.NamesEntries stride := by
  obtain ⟨place, left, passed, halted⟩ := advance_eq_ok_iff.1 walked
  have remaining : AreWhole left := fun name member =>
    whole name (passed.left_suffix.subset member)
  cases halted with
  | arrived => trivial
  | file => trivial
  | link => trivial
  | linked => exact fun name member => remaining name (List.mem_cons_of_mem _ member)
  | missing admitted _ =>
      exact ⟨admitted.toIsPlain, admitted.short, remaining _ List.mem_cons_self⟩

/-- By induction on the links, a walk ends at names that an entry can have: what is missing could be
there. -/
theorem lacksEntry_of_walk {tree : FileTree} {aim : WalkAim} {links : Nat}
    {directory : Location} {names : List FileName} {spot : Spot} (whole : AreWhole names)
    (walked : tree.walk aim links directory names = .ok spot) : Spot.LacksEntry spot := by
  fun_induction tree.walk aim links directory names with
  | case1 => simp at walked
  | case2 links directory names found strode =>
      obtain rfl := Except.ok.inj walked
      exact namesEntries_of_advance whole strode
  | case3 => simp at walked
  | case4 directory names place target rest strode fewer ih =>
      have remaining : AreWhole rest := namesEntries_of_advance whole strode
      refine ih (fun name member => ?_) walked
      rcases List.mem_append.1 member with first | later
      · exact areWhole_splitNames target name first
      · exact remaining name later

/-- A missing name is one that an entry can have. -/
theorem isEntry_of_locate {tree : FileTree} {base directory : Location} {aim : WalkAim}
    {path : Path} {name : FileName}
    (located : tree.locate base aim path = .ok (.missing directory name)) : name.IsEntry :=
  lacksEntry_of_walk (areWhole_splitNames _) (walk_of_locate located).2

/-! ### Following links to their end -/

/-- A walk to a target does not end at a link. -/
theorem isLink_eq_false_of_advance {tree : FileTree} {directory location : Location}
    {names : List FileName} {entry : Entry}
    (walked : tree.advance .target directory names = .ok (.ended (.found location entry))) :
    entry.isLink = false := by
  obtain ⟨place, left, passed, halted⟩ := advance_eq_ok_iff.1 walked
  cases halted with
  | arrived => rfl
  | file => rfl
  | link _ _ itself => cases itself

/-- What a path leads to is no link. -/
theorem isLink_eq_false_of_walk {tree : FileTree} {links : Nat} {directory location : Location}
    {names : List FileName} {entry : Entry}
    (walked : tree.walk .target links directory names = .ok (.found location entry)) :
    entry.isLink = false := by
  generalize aimed : WalkAim.target = aim at walked
  fun_induction tree.walk aim links directory names with
  | case1 => simp at walked
  | case2 links directory names found strode =>
      obtain rfl := Except.ok.inj walked
      rw [← aimed] at strode
      exact isLink_eq_false_of_advance strode
  | case3 => simp at walked
  | case4 directory names place target rest strode fewer ih => exact ih walked

namespace Sound

variable {tree : FileTree}

/-- In a sound tree, every name on the way to what stands can name an entry. -/
theorem isEntry_of_mem (sound : tree.Sound) {location : Location}
    (stands : tree.get? location ≠ none) : ∀ name ∈ location, FileName.IsEntry name := by
  induction location with
  | nil => simp
  | cons first above ih =>
      have parent := sound.grounded first above stands
      intro name member
      rcases List.mem_cons.1 member with rfl | higher
      · exact sound.named name above stands
      · exact ih (by simp [parent]) name higher

/-- Above a directory there are directories only. -/
theorem get?_of_suffix (sound : tree.Sound) {above location : Location}
    (stands : tree.get? location = some .directory) (suffix : above <:+ location) :
    tree.get? above = some .directory := by
  induction location with
  | nil =>
      obtain rfl := List.suffix_nil.1 suffix
      exact stands
  | cons name parent ih =>
      rcases List.suffix_cons_iff.1 suffix with rfl | higher
      · exact stands
      · exact ih (sound.grounded.tail stands) higher

/-- A new entry below a directory keeps the tree sound. -/
theorem put (sound : tree.Sound) {name : FileName} {directory : Location} (entry : Entry)
    (valid : name.IsEntry) (noWay : tree.NoWay (name :: directory))
    (above : tree.get? directory = some .directory) :
    (tree.put (name :: directory) entry).Sound := by
  refine ⟨sound.grounded.put entry noWay above, ?_⟩
  intro other place stands
  rw [get?_put _ _ _ _ (List.cons_ne_nil _ _)] at stands
  split at stands
  · rename_i same
    obtain ⟨rfl, -⟩ := List.cons.inj same
    exact valid
  · exact sound.named other place stands

/-- Taking away an entry that nothing is below keeps the tree sound. -/
theorem remove (sound : tree.Sound) {location : Location} (noWay : tree.NoWay location) :
    (tree.remove location).Sound := by
  refine ⟨sound.grounded.remove noWay, ?_⟩
  intro other place stands
  rw [get?_remove _ _ _ (ne_root_of_noWay noWay)] at stands
  split at stands
  · exact absurd rfl stands
  · exact sound.named other place stands

/-- Making a directory keeps it sound. -/
theorem makeDirectory (sound : tree.Sound) {new : FileTree} {base : Location} {path : Path}
    (absolute : path.isAbsolute = true) (made : tree.makeDirectory base path = .ok new) :
    new.Sound := by
  obtain ⟨name, directory, located, absent, above, rfl, -⟩ :=
    exists_of_makeDirectory sound.grounded absolute made
  exact sound.put .directory (isEntry_of_locate located) (noWay_of_none absent) above

/-- Writing a file does. -/
theorem write (sound : tree.Sound) {new : FileTree} {base : Location} {moment : FileTime}
    {path : Path} {content : Bytes} (absolute : path.isAbsolute = true)
    (written : tree.write base moment path content = .ok new) : new.Sound := by
  rw [FileTree.write, locate_base tree base .writing absolute] at written
  cases located : tree.locate [] .writing path with
  | error fault =>
      rw [located] at written
      cases written
  | ok spot =>
      have holds := holds_of_locate_absolute sound.grounded absolute located
      rw [located] at written
      cases spot with
      | missing directory name =>
          obtain rfl := Except.ok.inj written
          exact sound.put _ (isEntry_of_locate located) (noWay_of_none holds.1) holds.2
      | found location entry =>
          cases entry with
          | directory => cases written
          | link target => cases written
          | file old modified =>
              obtain rfl := Except.ok.inj written
              have stands : tree.get? location = some (.file old modified) := holds
              cases location with
              | nil => cases stands
              | cons name directory =>
                  have there : tree.get? (name :: directory) ≠ none := by simp [stands]
                  exact sound.put _ (sound.named name directory there) (noWay_of_file stands)
                    (sound.grounded name directory there)

/-- The path that names the location of an entry leads to the entry. -/
theorem locate_toPath (sound : tree.Sound) {location : Location} {entry : Entry}
    (stands : tree.get? location = some entry) (noLink : entry.isLink = false)
    (fits : location.toPath.Fits) :
    tree.locate [] .target location.toPath = .ok (.found location entry) := by
  induction location generalizing entry with
  | nil =>
      have shown : (Location.toPath []).names = [[], []] := rfl
      obtain rfl := Option.some.inj stands
      rw [locate_eq_walk tree [] .target rfl fits, shown, walk, advance_nil_cons,
        advance_nil_cons, advance]
      rfl
  | cons name above ih =>
      have valid := sound.named name above (by simp [stands])
      have parent := sound.grounded name above (by simp [stands])
      rw [Location.toPath_cons] at fits ⊢
      have leads : tree.Leads (Location.toPath above) above := ih parent rfl (fits.of_child rfl)
      have shows : tree.get? (Utf8.encode (Utf8.decodeEscaped name) :: above) = some entry := by
        rw [Utf8.encode_decodeEscaped]
        exact stands
      have unlinked : ∀ target,
          tree.get? (Utf8.encode (Utf8.decodeEscaped name) :: above) ≠ some (.link target) := by
        intro target linked
        obtain rfl := Option.some.inj (shows.symm.trans linked)
        cases noLink
      rw [locate_child rfl (isEntryName_decodeEscaped valid) fits leads
        (.inr unlinked),
        Utf8.encode_decodeEscaped, if_neg (Nat.not_lt.2 valid.short), spotIn_of_some stands]

/-- The path to a directory leads there, if the system takes it. -/
theorem leads_toPath (sound : tree.Sound) {location : Location}
    (stands : tree.get? location = some .directory) (fits : location.toPath.Fits) :
    tree.Leads location.toPath location :=
  sound.locate_toPath stands rfl fits

/-- The names of the path of a location are walked without a link. -/
theorem advance_toPath (sound : tree.Sound) {location : Location}
    (stands : tree.get? location = some .directory) :
    tree.advance .target [] location.toPath.names = .ok (.ended (.found location .directory)) := by
  induction location with
  | nil => rfl
  | cons name above ih =>
      have entry := sound.named name above (by simp [stands])
      have parent := sound.grounded name above (by simp [stands])
      have own : tree.advance .target above [name] =
          .ok (.ended (.found (name :: above) .directory)) := by
        rw [advance_singleton ⟨entry.toIsPlain, by simp, entry.short⟩ (.inr (by simp [stands])),
          spotIn_of_some stands]
      rw [Location.toPath_cons]
      cases above with
      | nil =>
          have whole : ∀ part ∈ [Utf8.decodeEscaped name], Glyph.char '/' ∉ part := by
            simpa using (isEntryName_decodeEscaped entry).whole
          have shown : (Path.child (Location.toPath []) (Utf8.decodeEscaped name)).names =
              [] :: [Utf8.decodeEscaped name].map Utf8.encode := by
            rw [← Path.splitNames_joinWith (List.cons_ne_nil _ _) whole]
            rfl
          rw [shown, advance_nil_cons, List.map_singleton, Utf8.encode_decodeEscaped, own]
      | cons upper more =>
          rw [Path.names_child (by simp [Location.toPath])
            (isEntryName_decodeEscaped entry).whole, Utf8.encode_decodeEscaped,
            advance_append .target (goesOn_cons entry.toIsPlain []) (ih parent), own]

/-- The path of a location is no other spelling of itself. -/
theorem misread?_toPath (sound : tree.Sound) {location : Location}
    (stands : tree.get? location = some .directory) (base : Location) :
    tree.misread? base location.toPath = none := by
  have walked := sound.advance_toPath stands
  rw [Path.names] at walked
  simp only [misread?, startOf_of_isAbsolute base (Location.isAbsolute_toPath location)]
  rw [unread?, walked]
  rfl

/-- What a path leads to stands there and is no link, if the path is read in a directory that
is not lost or is absolute. -/
theorem stands_of_locate (sound : tree.Sound) {base location : Location} {path : Path}
    {entry : Entry} (standing : base.isLost = false → tree.get? base = some .directory)
    (here : base.isLost = false ∨ path.isAbsolute = true)
    (located : tree.locate base .target path = .ok (.found location entry)) :
    tree.get? location = some entry ∧ entry.isLink = false := by
  have start : tree.get? (startOf base (Utf8.encode path.toText)) = some .directory := by
    rcases here with stays | absolute
    · exact startOf_stands _ (standing stays)
    · rw [startOf_of_isAbsolute base absolute]
      rfl
  exact ⟨holds_of_locate sound.grounded start located,
    isLink_eq_false_of_walk (walk_of_locate located).2⟩

/-- What resolving a path gives is the location of an entry that is no link. -/
theorem exists_of_resolve (sound : tree.Sound) {base location : Location} {path : Path}
    (standing : base.isLost = false → tree.get? base = some .directory)
    (resolved : tree.resolve base path = .ok location) :
    ∃ entry, tree.get? location = some entry ∧ entry.isLink = false := by
  rw [resolve] at resolved
  split at resolved
  · cases resolved
  · rename_i here
    have here : base.isLost = false ∨ path.isAbsolute = true := by
      by_cases absolute : path.isAbsolute = true
      · exact .inr absolute
      · exact .inl (by simpa [absolute] using here)
    split at resolved
    · cases resolved
    · split at resolved
      · rename_i place entry located
        obtain rfl := Except.ok.inj resolved
        exact ⟨entry, sound.stands_of_locate standing here located⟩
      · cases resolved
      · cases resolved

end Sound

end FileTree

end PatchShelf
