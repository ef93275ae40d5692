/-
Module: PatchShelf.Proofs.Store.Refusals
Purpose: The reasons for which the steps of the store stop.
Main exports:
  WorkingCopyStore.Refused, WorkingCopyStore.Refuses, WorkingCopyStore.TooLong,
  WorkingCopyStore.Asks, WorkingCopyStore.stops_findRoot, WorkingCopyStore.stops_runClient,
  WorkingCopyStore.stops_writeFiles
-/
import PatchShelf.Proofs.Store.LegibleRecords
import PatchShelf.Proofs.Store.Refinement

/-!
The store words what the system refuses as a failure of its own.  Some refusals escape:
questions about the kind of an entry are asked outside of the part that is worded, and so
is the cleanup after a failed write.  Here it is noted what can stop each step, and which
paths the questions are about.
-/

namespace PatchShelf

/-- No name in the tree holds a NUL. -/
def FileTree.NullFree (tree : FileTree) : Prop :=
  ∀ name directory, tree.get? (name :: directory) ≠ none → 0 ∉ name

/-- A tree is free of NULs if no name in any of its locations has one. -/
theorem FileTree.nullFree_of_entries {tree : FileTree}
    (clean : ∀ location ∈ tree.entries.keys, ∀ name ∈ location, 0 ∉ name) : tree.NullFree := by
  intro name directory stands
  exact clean _ ((tree.get?_ne_none_iff name directory).1 stands) name List.mem_cons_self

namespace WorkingCopyStore

open Effect (StopsOnly)
open Machine (HoldsNull IsSystem Operation)

/-- A failure of the store, or another reason of some kind. -/
def Refused (other : Stop → Prop) (reason : Stop) : Prop :=
  (∃ message, reason = .failure (ShelfStore.failure message)) ∨ other reason

/-- A name is too long for the system. -/
def IsLongName (reason : Stop) : Prop :=
  ∃ path, reason = .fault (.system .nameTooLong path)

/-- A message of the store is a refusal. -/
theorem refused_failure {other : Stop → Prop} (message : Text) :
    Refused other (.failure (ShelfStore.failure message)) :=
  .inl ⟨message, rfl⟩

/-- What else may stop a run can be widened. -/
theorem Refused.imp {other more : Stop → Prop} (implies : ∀ reason, other reason → more reason)
    (reason : Stop) (refused : Refused other reason) : Refused more reason :=
  refused.imp_right (implies reason)

section Steps

variable {machine : Machine} {allowed other : Stop → Prop}

/-- A look at the files stops for what it is refused for. -/
theorem stops_access {α : Type} {query : FileTree → Location → Except Fault α}
    (holds : ∀ fault, query machine.tree machine.directory = .error fault →
      allowed (.fault fault)) : StopsOnly allowed (Machine.access query) machine := by
  intro reason stopped
  rw [Machine.run_access] at stopped
  cases asked : query machine.tree machine.directory with
  | ok found =>
      rw [asked] at stopped
      cases stopped
  | error fault =>
      rw [asked] at stopped
      obtain rfl := Except.error.inj stopped
      exact holds fault asked

/-- The system refuses to tell what a path leads to, because a name on the way is too long. -/
def Refuses (tree : FileTree) (base : Location) (path : Path) : Prop :=
  tree.probe base path = .error (.system .nameTooLong path.toText)

/-- Questions about the kind of an entry are refused only if a name is too long. -/
theorem refuses_of_asked {β : Type} {tree : FileTree} {base : Location} {path : Path}
    {answer : Option Entry → β} {fault : Fault}
    (asked : (tree.probe base path).map answer = .error fault) :
    Refuses tree base path ∧ fault = .system .nameTooLong path.toText := by
  cases probed : tree.probe base path with
  | ok entry =>
      rw [probed] at asked
      cases asked
  | error other =>
      rw [probed] at asked
      obtain rfl := Except.error.inj asked
      obtain rfl := FileTree.eq_of_probe_error probed
      exact ⟨probed, rfl⟩

/-- What an absolute path leads to is refused in one directory as in another. -/
theorem Refuses.elsewhere {tree : FileTree} {one : Location} {path : Path}
    (absolute : path.isAbsolute = true) (refuses : Refuses tree one path) (other : Location) :
    Refuses tree other path := by
  rw [Refuses, FileTree.probe, FileTree.locate_base tree other .target absolute,
    ← FileTree.locate_base tree one .target absolute]
  exact refuses

/-- A probe that is refused met a name that is too long. -/
theorem isLongName_of_asked {β : Type} {tree : FileTree} {base : Location} {path : Path}
    {answer : Option Entry → β} {fault : Fault}
    (asked : (tree.probe base path).map answer = .error fault) : IsLongName (.fault fault) :=
  ⟨path.toText, congrArg Stop.fault (refuses_of_asked asked).2⟩

/-! ### Which paths are asked about -/

/-- The system does not take a path: it is overlong, or a name on the way is. -/
def TooLong (machine : Machine) (path : Path) : Prop :=
  FileTree.longestPath < (Utf8.encode path.toText).length ∨
    Refuses machine.tree machine.directory path

/-- The paths about which the store asks, outside of what it words, for the sake of a shelf, from
a start: the start, what it is taken to be another spelling of, the location that it leads to, the
administrative areas there and above, the directory of shelves and the patch file. -/
inductive Asks (settings : WorkingCopyStore) (machine : Machine) (start : Text)
    (shelf : Option Text) : Path → Prop
  | start : Asks settings machine start shelf (Path.ofText start)
  | spelling {shown : Path}
      (misread : machine.tree.misread? machine.directory (Path.ofText start) = some shown) :
      Asks settings machine start shelf shown
  | place {location : Location}
      (resolved : machine.tree.resolve machine.directory (Path.ofText start) = .ok location) :
      Asks settings machine start shelf location.toPath
  | area {location upper : Location}
      (resolved : machine.tree.resolve machine.directory (Path.ofText start) = .ok location)
      (above : upper <:+ location) : Asks settings machine start shelf (adminPath upper.toPath)
  | shelves {root : Path} (rooted : ((findRoot start).run machine).result = .ok root) :
      Asks settings machine start shelf (settings.shelvesPath root)
  | patch {root path : Path} {name : Text}
      (rooted : ((findRoot start).run machine).result = .ok root) (named : shelf = some name)
      (spelled : shelfFile (settings.shelvesPath root) name Shelf.patchSuffix = .ok path) :
      Asks settings machine start shelf path

/-- The system does not take a path that it is asked about. -/
def LongPath (settings : WorkingCopyStore) (machine : Machine) (start : Text)
    (shelf : Option Text) (reason : Stop) : Prop :=
  ∃ path, settings.Asks machine start shelf path ∧ TooLong machine path ∧
    reason = .fault (.system .nameTooLong path.toText)

/-- What stops at a long path met a name that is too long. -/
theorem LongPath.isLongName {settings : WorkingCopyStore} {start : Text} {shelf : Option Text}
    {reason : Stop} (long : settings.LongPath machine start shelf reason) : IsLongName reason := by
  obtain ⟨path, -, -, rfl⟩ := long
  exact ⟨_, rfl⟩

/-- A question about a path that the store asks about is refused. -/
theorem longPath_of_asked {β : Type} {settings : WorkingCopyStore} {start : Text}
    {shelf : Option Text} {path : Path} {answer : Option Entry → β} {fault : Fault}
    (asks : settings.Asks machine start shelf path)
    (asked : (machine.tree.probe machine.directory path).map answer = .error fault) :
    settings.LongPath machine start shelf (.fault fault) := by
  obtain ⟨refuses, rfl⟩ := refuses_of_asked asked
  exact ⟨path, asks, .inr refuses, rfl⟩

/-! ### Looking for the root -/

/-- The search for a root stops at an administrative path that the system refuses, at the start or
above it. -/
theorem exists_refuses_of_nearestRoot {tree : FileTree} {start : Location} {fault : Fault}
    (refused : nearestRoot tree start = .error fault) :
    ∃ upper : Location, upper <:+ start ∧ Refuses tree [] (adminPath upper.toPath) ∧
      fault = .system .nameTooLong (adminPath upper.toPath).toText := by
  induction start with
  | nil =>
      rw [nearestRoot, join_adminName] at refused
      cases asked : tree.isDirectory [] (adminPath (Location.toPath [])) with
      | error why =>
          rw [asked] at refused
          obtain rfl := Except.error.inj refused
          exact ⟨[], List.suffix_rfl, refuses_of_asked asked⟩
      | ok there =>
          rw [asked] at refused
          cases there with
          | false => cases refused
          | true => cases refused
  | cons name above ih =>
      rw [nearestRoot, join_adminName] at refused
      cases asked : tree.isDirectory [] (adminPath (Location.toPath (name :: above))) with
      | error why =>
          rw [asked] at refused
          obtain rfl := Except.error.inj refused
          exact ⟨_, List.suffix_rfl, refuses_of_asked asked⟩
      | ok there =>
          rw [asked] at refused
          cases there with
          | false =>
              obtain ⟨upper, higher, refuses⟩ := ih refused
              exact ⟨upper, higher.trans (List.suffix_cons _ _), refuses⟩
          | true => cases refused

/-- A relative path is read in the working directory, and that is lost. -/
def IsLost (machine : Machine) (path : Text) (reason : Stop) : Prop :=
  (Path.ofText path).isAbsolute = false ∧ machine.directory.isLost = true ∧
    reason = .fault .lostDirectory

/-- What is present is resolved, unless the working directory is lost or a link stands too
deep. -/
theorem isLost_or_misread_of_resolve {path : Text} {fault : Fault}
    (present : machine.tree.isPresent machine.directory (Path.ofText path) = .ok true)
    (refused : machine.tree.resolve machine.directory (Path.ofText path) = .error fault) :
    IsLost machine path (.fault fault) ∨ ∃ shown,
      machine.tree.misread? machine.directory (Path.ofText path) = some shown ∧
        fault = .system .nameTooLong shown.toText := by
  rw [FileTree.resolve] at refused
  split at refused
  · rename_i lost
    obtain rfl := Except.error.inj refused
    rw [Bool.and_eq_true, Bool.not_eq_true'] at lost
    exact .inl ⟨lost.2, lost.1, rfl⟩
  · split at refused
    · rename_i shown misread
      exact .inr ⟨shown, misread, (Except.error.inj refused).symm⟩
    · rw [FileTree.isPresent] at present
      cases probed : machine.tree.probe machine.directory (Path.ofText path) with
      | error why =>
          rw [probed] at present
          cases present
      | ok entry =>
          rw [probed] at present
          cases entry with
          | none => cases present
          | some entry =>
              obtain ⟨place, located⟩ := (FileTree.probe_eq_some_iff _ _ _ entry).1 probed
              rw [located] at refused
              cases refused

/-- A path that another one is taken to spell is overlong. -/
theorem tooLong_of_misread {path shown : Path}
    (misread : machine.tree.misread? machine.directory path = some shown) :
    TooLong machine shown := by
  obtain ⟨location, kept, rfl⟩ := Option.map_eq_some_iff.1 misread
  obtain ⟨-, overlong⟩ := Option.filter_eq_some_iff.1 kept
  exact .inl (by simpa [FileTree.isOverlong] using overlong)

/-- Looking for the root is refused in words, stops at a long path, or starts nowhere. -/
theorem stops_findRoot (settings : WorkingCopyStore) (path : Text) (shelf : Option Text) :
    StopsOnly (Refused fun reason =>
        settings.LongPath machine path shelf reason ∨ IsLost machine path reason)
      (findRoot path) machine := by
  refine .bind_reads (Machine.reads_access _) ?_ fun present asked => ?_
  · exact stops_access fun fault asked => .inr (.inl (longPath_of_asked .start asked))
  · rw [Machine.run_access] at asked
    cases present with
    | false => exact .fail (refused_failure _)
    | true =>
        have there : machine.tree.isPresent machine.directory (Path.ofText path) = .ok true :=
          mapError_eq_ok_iff.1 asked
        refine .bind_reads (Machine.reads_access _) ?_ fun location resolved => ?_
        · refine stops_access fun fault refused => .inr ?_
          rcases isLost_or_misread_of_resolve there refused with lost | ⟨shown, misread, rfl⟩
          · exact .inr lost
          · exact .inl ⟨shown, .spelling misread, tooLong_of_misread misread, rfl⟩
        · rw [Machine.run_access] at resolved
          have resolved := mapError_eq_ok_iff.1 resolved
          refine .bind_reads (Machine.reads_access _) ?_ fun inside _ => ?_
          · refine stops_access fun fault asked => .inr (.inl ?_)
            obtain ⟨refuses, rfl⟩ := refuses_of_asked asked
            exact ⟨_, .place resolved, .inr (refuses.elsewhere rfl _), rfl⟩
          · refine .bind_reads (Machine.reads_access _) ?_ fun root _ => ?_
            · refine stops_access fun fault refused => .inr (.inl ?_)
              obtain ⟨upper, above, refuses, rfl⟩ := exists_refuses_of_nearestRoot refused
              refine ⟨_, .area resolved ?_, .inr (refuses.elsewhere rfl _), rfl⟩
              split at above
              · exact above
              · exact above.trans (List.tail_suffix _)
            · cases root with
              | none => exact .fail (refused_failure _)
              | some found => exact .pure _

/-! ### Wording -/

/-- What the system refused is worded; the cleanup behind it may stop for reasons of its own. -/
theorem stops_explainingAfter {α : Type} {cleanup : Operation Unit} {lead : Text}
    {task : Operation α} (stops : StopsOnly (fun reason => IsSystem reason ∨ Refused other reason)
      task machine)
    (cleans : StopsOnly (Refused other) cleanup (task.run machine).world) :
    StopsOnly (Refused other) (explainingAfter cleanup lead task) machine := by
  intro reason stopped
  rw [run_explainingAfter] at stopped
  split at stopped
  · rename_i done
    rw [done] at stopped
    cases stopped
  · rename_i errno shown refused
    refine StopsOnly.bind cleans (fun _ _ => ?_) reason stopped
    exact .fail (refused_failure _)
  · rename_i why unlike refused
    rw [refused] at stopped
    obtain rfl := Except.error.inj stopped
    rcases stops _ refused with ⟨errno, path, rfl⟩ | known
    · exact absurd rfl (unlike errno path)
    · exact known

/-- With nothing behind it, only the words are left. -/
theorem stops_explaining {α : Type} {lead : Text} {task : Operation α}
    (stops : StopsOnly (fun reason => IsSystem reason ∨ Refused other reason) task machine) :
    StopsOnly (Refused other) (explaining lead task) machine :=
  stops_explainingAfter stops (.pure ())

/-! ### Calls of the client -/

/-- A client that failed is told of in words. -/
theorem exists_callFailure (settings : WorkingCopyStore) (subcommand : Text) (reply : Reply) :
    ∃ message, settings.callFailure subcommand reply = ShelfStore.failure message := by
  rw [callFailure.eq_def]
  simp only
  split
  · exact ⟨_, rfl⟩
  · exact ⟨_, rfl⟩

/-- A call of the client is refused in words, or for a NUL among its arguments. -/
theorem stops_runClient (settings : WorkingCopyStore) (root : Path) (subcommand : Text)
    (arguments : List Text) :
    StopsOnly (Refused (HoldsNull (settings.program :: subcommand :: arguments)))
      (settings.runClient root subcommand arguments) machine := by
  refine .bind (.emit _) fun _ _ => ?_
  refine .bind (stops_explaining ?_) fun reply _ => ?_
  · exact (Machine.stops_call _ _ _).weaken fun _ either => either.imp_right .inr
  · split
    · exact .pure _
    · obtain ⟨message, shown⟩ := exists_callFailure settings subcommand reply
      rw [shown]
      exact .fail (refused_failure message)

/-! ### Writing and removing files -/

/-- A reason of the system is accepted or handed on. -/
theorem stops_acceptDirectory {path : Path} {why : Stop} (known : IsSystem why) :
    StopsOnly IsSystem (Machine.acceptDirectory path why) machine := by
  refine .bind_reads (Machine.reads_access _) ?_ fun there _ => ?_
  · refine stops_access fun fault asked => ?_
    obtain ⟨shown, long⟩ := isLongName_of_asked asked
    exact ⟨_, shown, long⟩
  · cases there with
    | true => exact .pure _
    | false => exact .stop known

/-- A directory with a clean path is refused by the system only. -/
theorem stops_makeDirectory {path : Path} (noNull : path.toText.holds '\x00' = false) :
    StopsOnly IsSystem (Machine.makeDirectory path) machine := by
  intro reason stopped
  rw [Machine.run_makeDirectory] at stopped
  split at stopped
  · cases stopped
  · obtain rfl := Except.error.inj stopped
    exact ⟨_, _, rfl⟩
  · rename_i fault _ refused
    obtain ⟨errno, rfl⟩ := FileTree.exists_system_of_makeDirectory noNull refused
    exact stops_acceptDirectory ⟨_, _, rfl⟩ reason stopped

/-- By induction on the components, the directories on a clean way are refused by the system only.
-/
theorem stops_makeDirectories {anchor : Anchor} {backwards : List Text}
    (noNull : (Path.mk anchor backwards.reverse).toText.holds '\x00' = false) :
    StopsOnly IsSystem (Machine.makeDirectories anchor backwards) machine := by
  induction backwards generalizing machine with
  | nil => exact stops_makeDirectory noNull
  | cons last above ih =>
      have child : (⟨anchor, (last :: above).reverse⟩ : Path) =
          Path.child ⟨anchor, above.reverse⟩ last := by
        simp [Path.child]
      have higher : (Path.mk anchor above.reverse).toText.holds '\x00' = false :=
        Path.noNull_of_child (child ▸ noNull)
      intro reason stopped
      rw [Machine.run_makeDirectories_cons] at stopped
      split at stopped
      · cases stopped
      · exact StopsOnly.bind (ih higher) (fun _ _ => stops_makeDirectory noNull) reason stopped
      · rename_i fault _ refused
        obtain ⟨errno, rfl⟩ := FileTree.exists_system_of_makeDirectory noNull refused
        exact stops_acceptDirectory ⟨_, _, rfl⟩ reason stopped

/-- A file with a clean path is refused by the system only. -/
theorem stops_writeFile {path : Path} (noNull : path.toText.holds '\x00' = false)
    (content : Bytes) : StopsOnly IsSystem (Machine.writeFile path content) machine := by
  intro reason stopped
  rw [Machine.run_writeFile] at stopped
  split at stopped
  · cases stopped
  · rename_i fault refused
    obtain rfl := Except.error.inj stopped
    obtain ⟨errno, rfl⟩ := FileTree.exists_system_of_write noNull refused
    exact ⟨_, _, rfl⟩

/-- Both files of a shelf with clean paths are refused by the system only. -/
theorem stops_writeFiles {directory patchPath logPath : Path}
    (directoryClean : directory.toText.holds '\x00' = false)
    (patchClean : patchPath.toText.holds '\x00' = false)
    (logClean : logPath.toText.holds '\x00' = false) (patch : Bytes) (message : Option Bytes) :
    StopsOnly IsSystem (writeFiles directory patchPath logPath patch message) machine := by
  rw [writeFiles_eq]
  refine .bind (stops_makeDirectories ?_) fun _ _ => ?_
  · rw [List.reverse_reverse]
    exact directoryClean
  · refine .bind (stops_writeFile patchClean patch) fun _ _ => ?_
    cases message with
    | none => exact .pure _
    | some content => exact stops_writeFile logClean content

/-- A file cannot be taken away, though something is there. -/
def IsStuck (path : Path) (reason : Stop) : Prop :=
  ∃ errno, errno ≠ .notFound ∧ reason = .fault (.system errno path.toText)

/-- To take a file away gets stuck at its path, or not at all. -/
theorem stops_unlinkIfPresent {path : Path} (noNull : path.toText.holds '\x00' = false) :
    StopsOnly (IsStuck path) (Machine.unlinkIfPresent path) machine := by
  intro reason stopped
  rw [Machine.run_unlinkIfPresent] at stopped
  split at stopped
  · cases stopped
  · cases stopped
  · rename_i fault unlike refused
    obtain rfl := Except.error.inj stopped
    obtain ⟨errno, rfl⟩ := FileTree.exists_system_of_unlink noNull refused
    refine ⟨errno, ?_, rfl⟩
    rintro rfl
    exact unlike _ rfl

/-- What the names of the files of a shelf come to. -/
theorem shelfFile_error {directory : Path} {name suffix : Text} {failure : Failure}
    (refused : shelfFile directory name suffix = .error failure) :
    ∃ message, failure = ShelfStore.failure message := by
  rw [shelfFile] at refused
  split at refused
  · exact ⟨_, (Except.error.inj refused).symm⟩
  · cases refused

/-- A name that makes no file is refused in words. -/
theorem stops_shelfFile {directory : Path} {name suffix : Text} :
    StopsOnly (Refused other)
      (Effect.ofChecked (shelfFile directory name suffix) : Operation Path) machine := by
  refine .ofChecked fun failure refused => ?_
  obtain ⟨message, rfl⟩ := shelfFile_error refused
  exact refused_failure message

/-- Both files of a shelf are taken away, or the system refuses. -/
theorem stops_removeFiles {directory : Path} {name stem : Text}
    (isStem : IsStem directory name stem) (clean : directory.toText.holds '\x00' = false) :
    StopsOnly (fun reason => IsSystem reason ∨ Refused other reason)
      (removeFiles directory (directory.child (stem ++ Shelf.patchSuffix)) name) machine := by
  refine .bind ?_ fun _ _ => .bind ?_ fun logPath named => ?_
  · intro reason stopped
    rw [Machine.run_alter] at stopped
    split at stopped
    · cases stopped
    · rename_i fault refused
      obtain rfl := Except.error.inj stopped
      obtain ⟨errno, rfl⟩ := FileTree.exists_system_of_unlink
        (isStem.noNull_child clean (by decide)) refused
      exact .inl ⟨_, _, rfl⟩
  · exact stops_shelfFile.weaken fun _ refused => .inr refused
  · rw [isStem.shelfFile _ isSuffix_log] at named
    obtain rfl := Except.ok.inj named
    refine (stops_unlinkIfPresent (isStem.noNull_child clean (by decide))).weaken ?_
    rintro reason ⟨errno, -, rfl⟩
    exact .inl ⟨_, _, rfl⟩

end Steps

/-- A message that cannot be encoded is refused in words of the store. -/
theorem encodeMessage_error {name : Text} {message : Option Text} {failure : Failure}
    (refused : encodeMessage name message = .error failure) :
    ∃ shown, failure = ShelfStore.failure shown := by
  cases message with
  | none => cases refused
  | some text =>
      rw [encodeMessage] at refused
      split at refused
      · cases refused
      · exact ⟨_, (Except.error.inj refused).symm⟩

/-! ### The paths of the store hold no NUL -/

/-- The parts of a clean path are clean. -/
theorem noNull_ofText {text : Text} (clean : text.holds '\x00' = false) :
    ∀ part ∈ (Path.ofText text).parts, part.holds '\x00' = false := by
  intro part member
  have field := (List.mem_filter.1 member).1
  rw [← Bool.not_eq_true, Text.holds_iff] at clean ⊢
  exact fun inside => clean (Text.mem_of_mem_splitOn field _ inside)

/-- The shelves directory below a root that was found is clean, if its own name is. -/
theorem noNull_shelvesPath {settings : WorkingCopyStore} {machine : Machine} {path : Text}
    {root : Path} (clean : settings.shelvesDirectory.holds '\x00' = false)
    (found : ((findRoot path).run machine).result = .ok root) :
    (settings.shelvesPath root).toText.holds '\x00' = false := by
  obtain ⟨location, inside, nearest, -, -, searched, rfl⟩ := exists_of_findRoot found
  obtain ⟨-, area⟩ := isDirectory_of_nearestRoot searched
  obtain ⟨admin, leads⟩ := (FileTree.isDirectory_iff [] rfl).1 area
  have above := (FileTree.fits_of_locate rfl leads).1.noNull
  have own := noNull_ofText clean
  rw [shelvesPath_eq]
  simp only [HDiv.hDiv, Div.div, Path.join]
  split
  · -- The settings name the directory of shelves by an absolute path.
    have whole : Path.ofText settings.shelvesDirectory =
        Path.below ⟨(Path.ofText settings.shelvesDirectory).anchor, []⟩
          (Path.ofText settings.shelvesDirectory).parts := rfl
    rw [whole]
    refine Path.noNull_below ?_ own
    cases (Path.ofText settings.shelvesDirectory).anchor with
    | relative => decide
    | root => decide
    | doubleRoot => decide
  · exact Path.noNull_below above own

end WorkingCopyStore

end PatchShelf
