/-
Module: PatchShelf.Proofs.Commands.TargetsFile
Purpose: Targets that are read from a file, and the same targets given as arguments.
Main exports:
  CommandLine.targetLines_ofLines, CommandLine.ListedPath,
  Commands.shelve_extraTargets, Arguments.collectTargets_texts,
  CommandLine.targets_of_file_iff
-/
import PatchShelf.CommandLine.Run
import PatchShelf.Proofs.Commands.ReservedTargets
import PatchShelf.Proofs.Machine.Files
import PatchShelf.Proofs.Text.Lines
import PatchShelf.Proofs.Text.Utf8

/-!
A new shelf takes the targets of a file behind those among the arguments, so a file is as
good as arguments as far as that goes; a command that deletes a shelf does not look at the
file.  What differs is the reading.  A path that holds a line boundary other than a line
feed or a carriage return is one argument, and several lines of a file.
-/

namespace PatchShelf

namespace Text

theorem dropEndWhile_subset (test : Glyph → Bool) (text : Text) :
    dropEndWhile test text ⊆ text := by
  intro glyph member
  rw [dropEndWhile, List.mem_reverse] at member
  exact List.mem_reverse.1 ((List.dropWhile_sublist _).subset member)

theorem strip_subset (text : Text) : text.strip ⊆ text := fun _ member =>
  (List.dropWhile_sublist _).subset (dropEndWhile_subset _ _ member)

theorem hasRaw_of_subset {text whole : Text} (within : text ⊆ whole)
    (valid : whole.hasRaw = false) : text.hasRaw = false := by
  rw [hasRaw, List.any_eq_false] at valid ⊢
  exact fun glyph member => valid glyph (within member)

theorem hasRaw_ofLines {lines : List Text} (valid : ∀ line ∈ lines, line.hasRaw = false) :
    (ofLines lines).hasRaw = false := by
  rw [hasRaw, List.any_eq_false]
  intro glyph member
  obtain ⟨line, among, inside⟩ := List.mem_flatMap.1 member
  rcases List.mem_append.1 inside with within | feed
  · have clean := valid line among
    rw [hasRaw, List.any_eq_false] at clean
    exact clean glyph within
  · obtain rfl := List.mem_singleton.1 feed
    decide

end Text

/-! ### What arguments select -/

namespace Arguments

/-- Valid texts are selected by their last components, in their order. -/
theorem collectTargets_texts {texts : List Text} (valid : ∀ text ∈ texts, text.hasRaw = false) :
    collectTargets (texts.map .text) =
      .ok ⟨texts.filter fun text => !isReserved text, texts.filter isReserved⟩ := by
  induction texts with
  | nil => rfl
  | cons first rest ih =>
      rw [List.forall_mem_cons] at valid
      rw [List.map_cons, collectTargets, toUtf8_text valid.1, ih valid.2]
      show (if isReserved first then Except.ok (TargetSelection.mk _ (first :: _))
        else Except.ok (TargetSelection.mk (first :: _) _)) = _
      cases reserved : isReserved first <;> simp [reserved]

/-- A selection has kept or dropped every text, and nothing else. -/
theorem mem_iff_of_collectTargets_eq {texts others : List Text}
    (valid : ∀ text ∈ texts, text.hasRaw = false) (clean : ∀ text ∈ others, text.hasRaw = false)
    (same : collectTargets (texts.map .text) = collectTargets (others.map .text))
    (target : Text) : target ∈ texts ↔ target ∈ others := by
  rw [collectTargets_texts valid, collectTargets_texts clean, Except.ok.injEq,
    TargetSelection.mk.injEq] at same
  have split (members : List Text) : target ∈ members ↔
      (target ∈ members.filter fun text => !isReserved text) ∨
        target ∈ members.filter isReserved := by
    cases reserved : isReserved target <;> simp [reserved]
  rw [split texts, split others, same.1, same.2]

theorem takeName_cons (name : Argument) (rest : List Argument) :
    takeName (name :: rest) = (takeName [name]).map fun taken => (taken.1, rest) := by
  rw [takeName, takeName]
  cases toUtf8 name with
  | error failure => rfl
  | ok text =>
      show (checkShelfName text >>= _) = Except.map _ (checkShelfName text >>= _)
      cases checkShelfName text <;> rfl

end Arguments

/-! ### The command -/

namespace Commands

variable {σ : Type}

theorem createShelf_extraTargets (backend : Backend σ) (root name : Text) (options : Options)
    (rest : List Argument) (extra : List Text) :
    createShelf backend root { options with extraTargets := extra } name rest =
      createShelf backend root { options with extraTargets := [] } name
        (rest ++ extra.map .text) := by
  rw [createShelf, createShelf, List.map_nil, List.append_nil]
  rfl

/-- What `shelve` does once the working directory is known. -/
def shelveIn (backend : Backend σ) (now : Instant) (arguments : List Argument)
    (options : Options) (root : Text) : Session.Operation σ Unit :=
  if options.listOnly then
    Effect.ofChecked (Arguments.requireNone arguments) >>= fun _ =>
      listShelves backend root now !options.quiet
  else
    Effect.ofChecked (Arguments.takeName arguments) >>= fun taken =>
      if options.remove then removeShelf backend root options taken.1 taken.2
      else createShelf backend root options taken.1 taken.2

theorem shelve_eq (backend : Backend σ) (surroundings : Surroundings)
    (arguments : List Argument) (options : Options) :
    shelve backend surroundings arguments options =
      if options.quiet then
        Session.silence >>= fun _ => Effect.ofAccess surroundings.root >>=
          shelveIn backend surroundings.now arguments options
      else
        Effect.ofAccess surroundings.root >>=
          shelveIn backend surroundings.now arguments options := rfl

theorem shelveIn_extraTargets (backend : Backend σ) (now : Instant) (name : Argument)
    (options : Options) (extra : List Text) (root : Text) :
    shelveIn backend now [name] { options with extraTargets := extra } root =
      if options.remove then shelveIn backend now [name] { options with extraTargets := [] } root
      else shelveIn backend now (name :: extra.map .text)
        { options with extraTargets := [] } root := by
  rw [shelveIn, shelveIn, shelveIn, Arguments.takeName_cons name (extra.map .text)]
  simp only
  cases options.listOnly with
  | true => cases options.remove <;> rfl
  | false =>
      cases options.remove with
      | true => rfl
      | false =>
          simp only [Bool.false_eq_true, if_false]
          cases taken : Arguments.takeName [name] with
          | error failure => rfl
          | ok named =>
              obtain ⟨shelf, rest⟩ := named
              obtain rfl := rest_of_takeName taken
              exact createShelf_extraTargets backend root shelf options [] extra

/-- Beside a name, further targets count like arguments behind it, unless the command
deletes the shelf of the name: then they do not count at all. -/
theorem shelve_extraTargets (backend : Backend σ) (surroundings : Surroundings) (name : Argument)
    (options : Options) (extra : List Text) :
    shelve backend surroundings [name] { options with extraTargets := extra } =
      if options.remove then
        shelve backend surroundings [name] { options with extraTargets := [] }
      else
        shelve backend surroundings (name :: extra.map .text)
          { options with extraTargets := [] } := by
  have same := funext (shelveIn_extraTargets backend surroundings.now name options extra)
  rw [shelve_eq, shelve_eq, shelve_eq, same]
  cases options.remove <;> rfl

end Commands

/-! ### The file -/

namespace CommandLine

/-- The target that a line names, unless it is blank. -/
def targetOfLine? (line : Text) : Option Text :=
  if line.strip = [] then none else some line.strip

theorem targetLines_eq_filterMap (text : Text) :
    targetLines text = text.splitLines.filterMap targetOfLine? := by
  rw [targetLines]
  induction text.splitLines with
  | nil => rfl
  | cons line lines ih =>
      rw [List.map_cons, List.filter_cons, List.filterMap_cons, ih, targetOfLine?]
      cases line.strip <;> simp

/-- The targets in a text of lines are those of its lines. -/
theorem targetLines_ofLines (lines : List Text) :
    targetLines (Text.ofLines lines) = lines.flatMap targetLines := by
  have each : targetLines = fun text => text.splitLines.filterMap targetOfLine? :=
    funext targetLines_eq_filterMap
  rw [each]
  exact Text.filterMap_splitLines_ofLines (by decide) lines

/-- Targets are made of the glyphs of the text, and no line ends within them. -/
theorem of_mem_targetLines {text target : Text} (member : target ∈ targetLines text) :
    target.Unbroken ∧ target ⊆ text := by
  obtain ⟨line, among, rfl⟩ := List.mem_map.1 (List.mem_filter.1 member).1
  obtain ⟨unbroken, within⟩ := Text.of_mem_splitLines text line among
  have inside := Text.strip_subset line
  exact ⟨fun glyph found => unbroken glyph (inside found),
    List.Subset.trans inside within⟩

/-- A path that a line can name: it is not empty, it is valid, and no white space stands at
its ends. -/
structure ListedPath where
  text : Text
  named : text ≠ []
  trimmed : text.strip = text
  valid : text.hasRaw = false

theorem targetLines_of_unbroken (path : ListedPath) (unbroken : path.text.Unbroken) :
    targetLines path.text = [path.text] := by
  have kept : targetOfLine? path.text = some path.text := by
    rw [targetOfLine?, path.trimmed, if_neg path.named]
  rw [targetLines_eq_filterMap, Text.splitLines_of_unbroken path.named unbroken,
    List.filterMap_cons_some kept, List.filterMap_nil]

/-- The text of a file that lists paths. -/
def listing (paths : List ListedPath) : Text :=
  Text.ofLines (paths.map ListedPath.text)

theorem hasRaw_listing (paths : List ListedPath) : (listing paths).hasRaw = false := by
  refine Text.hasRaw_ofLines fun line member => ?_
  obtain ⟨path, -, rfl⟩ := List.mem_map.1 member
  exact path.valid

theorem targetLines_listing {paths : List ListedPath}
    (unbroken : ∀ path ∈ paths, path.text.Unbroken) :
    targetLines (listing paths) = paths.map ListedPath.text := by
  rw [listing, targetLines_ofLines, List.flatMap_map]
  induction paths with
  | nil => rfl
  | cons first rest ih =>
      rw [List.forall_mem_cons] at unbroken
      rw [List.flatMap_cons, targetLines_of_unbroken first unbroken.1, ih unbroken.2]
      rfl

/-- No line ends within a target that was read, so the targets select what the paths select
only if no line ends within these either. -/
theorem collectTargets_listing_iff (paths : List ListedPath) :
    Arguments.collectTargets ((targetLines (listing paths)).map .text) =
        Arguments.collectTargets ((paths.map ListedPath.text).map .text) ↔
      ∀ path ∈ paths, path.text.Unbroken := by
  constructor
  · intro same path member
    have pathsValid : ∀ text ∈ paths.map ListedPath.text, text.hasRaw = false := by
      intro text among
      obtain ⟨path, -, rfl⟩ := List.mem_map.1 among
      exact path.valid
    have linesValid : ∀ text ∈ targetLines (listing paths), text.hasRaw = false :=
      fun text among =>
        Text.hasRaw_of_subset (of_mem_targetLines among).2 (hasRaw_listing paths)
    have among := (Arguments.mem_iff_of_collectTargets_eq linesValid pathsValid same path.text).2
      (List.mem_map_of_mem member)
    exact (of_mem_targetLines among).1
  · intro unbroken
    rw [targetLines_listing unbroken]

/-- Reading a file that lists paths changes nothing and finds the targets of the listing. -/
theorem run_readTargets {session : Session Machine} {file : Text} {paths : List ListedPath}
    (held : session.world.tree.read session.world.directory (Path.ofText file) =
      .ok (Utf8.encode (listing paths))) :
    (readTargets (some file)).run session =
      ⟨.ok (targetLines (listing paths)), session, []⟩ := by
  have consulted : (Session.consult (Machine.access fun tree base =>
        tree.read base (Path.ofText file))).run session =
      ⟨.ok (Utf8.encode (listing paths)), session, []⟩ := by
    rw [Session.run_consult, Machine.run_access, held]
    rfl
  have text : (readTextFile (Path.ofText file)).run session =
      ⟨.ok (listing paths), session, []⟩ := by
    rw [readTextFile, Effect.run_bind, consulted]
    simp only [Utf8.decode_encode (hasRaw_listing paths)]
    rfl
  rw [readTargets, Effect.run_bind, text]
  rfl

/-- A shelf gets the targets that are read from a file as if they were arguments, unless it
is to be deleted.  They are the paths that the file lists, and lead to the selection that
these paths as arguments lead to, exactly if no path holds a line boundary. -/
theorem targets_of_file_iff {σ : Type} (backend : Backend σ) (surroundings : Surroundings)
    (name : Argument) (options : Options) (paths : List ListedPath) (session : Session Machine)
    (file : Text)
    (held : session.world.tree.read session.world.directory (Path.ofText file) =
      .ok (Utf8.encode (listing paths))) :
    ∃ extra, (readTargets (some file)).run session = ⟨.ok extra, session, []⟩ ∧
      Commands.shelve backend surroundings [name] { options with extraTargets := extra } =
        (if options.remove then
          Commands.shelve backend surroundings [name] { options with extraTargets := [] }
        else
          Commands.shelve backend surroundings (name :: extra.map .text)
            { options with extraTargets := [] }) ∧
      (extra = paths.map ListedPath.text ↔ ∀ path ∈ paths, path.text.Unbroken) ∧
      (Arguments.collectTargets (extra.map .text) =
          Arguments.collectTargets ((paths.map ListedPath.text).map .text) ↔
        ∀ path ∈ paths, path.text.Unbroken) := by
  refine ⟨targetLines (listing paths), run_readTargets held,
    Commands.shelve_extraTargets backend surroundings name options _,
    ⟨fun same => ?_, targetLines_listing⟩, collectTargets_listing_iff paths⟩
  exact (collectTargets_listing_iff paths).1 (by rw [same])

/-- A path with a vertical tab in it. -/
def tabbedPath : ListedPath :=
  ⟨"a\u000bb", by decide, by decide, by decide⟩

/-- A session in a directory with a file that lists this path. -/
def tabbedSession : Session Machine where
  context := ⟨true, none⟩
  world :=
    { tree := FileTree.empty.put [Utf8.encode "list"]
        (.file (Utf8.encode (listing [tabbedPath])) .epoch)
      directory := []
      clock := .epoch
      programs := .ofList [] }

/-- The file names other targets than the path it lists. -/
theorem targets_of_tabbed_file :
    ∃ extra, (readTargets (some "list")).run tabbedSession = ⟨.ok extra, tabbedSession, []⟩ ∧
      Arguments.collectTargets (extra.map .text) ≠
        Arguments.collectTargets [.text tabbedPath.text] := by
  obtain ⟨extra, read, -, -, agree⟩ :=
    targets_of_file_iff ⟨MemoryStore.store, fun _ => pure []⟩ ⟨some "/w", .epoch⟩ (.text "n") {}
      [tabbedPath] tabbedSession "list" (by decide +kernel)
  refine ⟨extra, read, fun same => ?_⟩
  exact absurd (agree.1 same) (by decide)

end CommandLine

end PatchShelf
