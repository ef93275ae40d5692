/-
Module: PatchShelf.Proofs.Store.ShelfTouches
Purpose: Which entries the operations of the store touch themselves.
Main exports:
  WorkingCopyStore.IsShelfFile, WorkingCopyStore.Touch, WorkingCopyStore.KeepsTo,
  WorkingCopyStore.passes_create, WorkingCopyStore.passes_delete,
  WorkingCopyStore.passes_finishApply
-/
import Mathlib.Logic.Relation
import PatchShelf.Proofs.FileTree.LinkFree
import PatchShelf.Proofs.Machine.Stretches
import PatchShelf.Proofs.Store.DryRun

/-!
An operation of the store touches the files in three ways: it makes a directory that is missing
on the way to the directory of shelves, it writes a file of the shelf, and it takes one away.
Each step of its program is one of these, or touches nothing, in any tree without links; so
every stretch of it between two calls of the client is a sequence of touches.
-/

namespace PatchShelf

namespace WorkingCopyStore

open Activity (calls)
open FileTree (LinkFree Spelled)
open Machine (Passes)

/-- The path of a file of the shelf: its patch or its log message. -/
def IsShelfFile (directory : Path) (name : Text) (path : Path) : Prop :=
  ∃ suffix ∈ [Shelf.patchSuffix, Shelf.logSuffix], shelfFile directory name suffix = .ok path

/-- One touch of the files.  Directories are made by operations that add a shelf only. -/
inductive Touch (adds : Bool) (directory : Path) (name : Text) (tree : FileTree) :
    FileTree → Prop
  | makes (adding : adds = true) (location : Location)
      (onWay : location <:+ Location.ofPath directory) (absent : tree.get? location = none) :
      Touch adds directory name tree (tree.put location .directory)
  | writes (path : Path) (own : IsShelfFile directory name path) (content : Bytes)
      (moment : FileTime) :
      Touch adds directory name tree (tree.put (Location.ofPath path) (.file content moment))
  | unlinks (path : Path) (own : IsShelfFile directory name path) :
      Touch adds directory name tree (tree.remove (Location.ofPath path))

/-- From a tree without links, touches lead to the other, which has no links either. -/
def KeepsTo (adds : Bool) (directory : Path) (name : Text) (one two : FileTree) : Prop :=
  one.LinkFree → two.LinkFree ∧ Relation.ReflTransGen (Touch adds directory name) one two

variable {settings : WorkingCopyStore} {directory path patchPath logPath : Path} {name : Text}
  {machine : Machine} {request : CreateRequest} {adds : Bool}

namespace KeepsTo

theorem refl (tree : FileTree) : KeepsTo adds directory name tree tree :=
  fun free => ⟨free, .refl⟩

/-- What keeps to the files of a shelf twice does so as a whole. -/
theorem trans (one two three : FileTree) (first : KeepsTo adds directory name one two)
    (second : KeepsTo adds directory name two three) : KeepsTo adds directory name one three := by
  intro free
  obtain ⟨midway, begins⟩ := first free
  obtain ⟨after, goes⟩ := second midway
  exact ⟨after, begins.trans goes⟩

/-- One touch of them is enough, if it leaves no link. -/
theorem touch {one two : FileTree}
    (touches : one.LinkFree → two.LinkFree ∧ Touch adds directory name one two) :
    KeepsTo adds directory name one two :=
  fun free => ⟨(touches free).1, .single (touches free).2⟩

end KeepsTo

/-- The files of a shelf are entries of the directory of shelves. -/
theorem IsShelfFile.exists_child (own : IsShelfFile directory name path) :
    ∃ part, FileTree.IsEntryName part ∧ path = directory.child part := by
  obtain ⟨suffix, member, given⟩ := own
  have ends : IsSuffix suffix := by
    rcases List.mem_pair.1 member with rfl | rfl
    · exact isSuffix_patch
    · exact isSuffix_log
  obtain ⟨stem, isName, shown⟩ := exists_of_shelfFile ends given
  exact ⟨_, isName, shown⟩

/-- The files of a shelf are spelled as the directory is. -/
theorem IsShelfFile.spelled (own : IsShelfFile directory name path) (spelled : Spelled directory) :
    Spelled path := by
  obtain ⟨part, isName, rfl⟩ := own.exists_child
  exact spelled.child isName

/-! ### Single changes -/

/-- To write a file of the shelf keeps to its files. -/
theorem passes_writeFile (spelled : Spelled directory) (own : IsShelfFile directory name path)
    (content : Bytes) :
    Passes (KeepsTo adds directory name) (Machine.writeFile path content) machine := by
  refine .bind_reads KeepsTo.refl .look fun found looked => ?_
  refine .alter KeepsTo.refl fun tree written => ?_
  refine KeepsTo.touch fun free => ?_
  obtain ⟨rfl, after⟩ := free.of_write (own.spelled spelled) written
  exact ⟨after, .writes path own content _⟩

/-- Taking a file of the shelf away touches nothing but that file. -/
theorem passes_unlink (spelled : Spelled directory) (own : IsShelfFile directory name path) :
    Passes (KeepsTo adds directory name)
      (Machine.alter fun tree base => tree.unlink base path) machine := by
  refine .alter KeepsTo.refl fun tree unlinked => KeepsTo.touch fun free => ?_
  obtain ⟨rfl, after⟩ := free.of_unlink (own.spelled spelled) unlinked
  exact ⟨after, .unlinks path own⟩

/-- To take away a shelf file that need not be there keeps to that shelf. -/
theorem passes_unlinkIfPresent (spelled : Spelled directory)
    (own : IsShelfFile directory name path) :
    Passes (KeepsTo adds directory name) (Machine.unlinkIfPresent path) machine := by
  refine .bind KeepsTo.trans (.attempt (passes_unlink spelled own)) fun ended _ => ?_
  split
  · exact .ofReads KeepsTo.refl (.pure ())
  · exact .ofReads KeepsTo.refl (.pure ())
  · exact .ofReads KeepsTo.refl (.stop _)

/-- A directory on the way to that of shelves. -/
structure OnWay (directory path : Path) : Prop where
  spelled : Spelled path
  above : Location.ofPath path <:+ Location.ofPath directory

/-- What is on the way to a part of a directory is on the way to the directory. -/
theorem OnWay.of_child {part : Text} (onWay : OnWay directory (path.child part)) :
    OnWay directory path := by
  refine ⟨onWay.spelled.of_child.1, ?_⟩
  have above := onWay.above
  rw [Location.ofPath_child] at above
  exact (List.suffix_cons _ _).trans above

/-- A directory may be made if it is on the way. -/
theorem passes_mkdir (onWay : OnWay directory path) :
    Passes (KeepsTo true directory name)
      (Machine.alter fun tree base => tree.makeDirectory base path) machine := by
  refine .alter KeepsTo.refl fun tree made => KeepsTo.touch fun free => ?_
  obtain ⟨absent, rfl, after⟩ := free.of_makeDirectory onWay.spelled made
  exact ⟨after, .makes rfl _ onWay.above absent⟩

theorem passes_makeDirectory (onWay : OnWay directory path) :
    Passes (KeepsTo true directory name) (Machine.makeDirectory path) machine := by
  refine .bind KeepsTo.trans (.attempt (passes_mkdir onWay)) fun ended _ => ?_
  split
  · exact .ofReads KeepsTo.refl (.pure ())
  · exact .ofReads KeepsTo.refl (.stop _)
  · exact .ofReads KeepsTo.refl (Machine.reads_acceptDirectory _ _)

/-- By induction on the components, all directories that are missing on the way may be made. -/
theorem passes_makeDirectories {anchor : Anchor} {backwards : List Text}
    (onWay : OnWay directory ⟨anchor, backwards.reverse⟩) :
    Passes (KeepsTo true directory name) (Machine.makeDirectories anchor backwards) machine := by
  induction backwards generalizing machine with
  | nil => exact passes_makeDirectory onWay
  | cons last above ih =>
      have higher : OnWay directory ⟨anchor, above.reverse⟩ := by
        have child : (⟨anchor, (last :: above).reverse⟩ : Path) =
            Path.child ⟨anchor, above.reverse⟩ last := by simp [Path.child]
        rw [child] at onWay
        exact onWay.of_child
      refine .bind KeepsTo.trans (.attempt (passes_mkdir onWay)) fun ended _ => ?_
      split
      · exact .ofReads KeepsTo.refl (.pure ())
      · exact .bind KeepsTo.trans (ih higher) fun _ _ => passes_makeDirectory onWay
      · exact .ofReads KeepsTo.refl (Machine.reads_acceptDirectory _ _)

/-! ### Operations of the store -/

/-- A cleanup behind a refusal has to keep to the files as well. -/
theorem passes_explainingAfter {α : Type} {cleanup : Machine.Operation Unit}
    {task : Machine.Operation α} (lead : Text)
    (works : Passes (KeepsTo adds directory name) task machine)
    (cleans : ∀ later, Passes (KeepsTo adds directory name) cleanup later) :
    Passes (KeepsTo adds directory name) (explainingAfter cleanup lead task) machine := by
  refine .bind KeepsTo.trans (.attempt works) fun ended _ => ?_
  split
  · exact .ofReads KeepsTo.refl (.pure _)
  · exact .bind KeepsTo.trans (cleans _) fun _ _ => .ofReads KeepsTo.refl (.fail _)
  · exact .ofReads KeepsTo.refl (.stop _)

theorem passes_progress (action : NotifyAction) (paths : List Text) :
    Passes (KeepsTo adds directory name)
      (Effect.emitAll (Activity.progress action paths) : Machine.Operation Unit) machine :=
  .emitAll KeepsTo.refl (Activity.calls_progress _ _)

/-- All that is written for a shelf is on the way to it, or one of its files. -/
theorem passes_writeFiles (spelled : Spelled directory)
    (patchOwn : IsShelfFile directory name patchPath) (logOwn : IsShelfFile directory name logPath)
    (patch : Bytes) (message : Option Bytes) :
    Passes (KeepsTo true directory name) (writeFiles directory patchPath logPath patch message)
      machine := by
  have onWay : OnWay directory ⟨directory.anchor, directory.parts.reverse.reverse⟩ := by
    rw [List.reverse_reverse]
    exact ⟨spelled, List.suffix_rfl⟩
  refine .bind KeepsTo.trans (passes_makeDirectories onWay) fun _ _ => ?_
  refine .bind KeepsTo.trans (passes_writeFile spelled patchOwn patch) fun _ _ => ?_
  cases message with
  | none => exact .ofReads KeepsTo.refl (.pure ())
  | some content => exact passes_writeFile spelled logOwn content

/-- The client is called for the changes; the store itself touches nothing. -/
theorem passes_takeOut (root : Path) (patch : Text) :
    Passes (KeepsTo adds directory name) (settings.takeOut root request patch) machine := by
  have reports (later : Machine) : Passes (KeepsTo adds directory name)
      (log .info ("Shelved " ++ countedPaths (Patch.paths patch) request.name)) later :=
    .logged KeepsTo.refl _
  rw [takeOut]
  split
  · exact reports _
  · refine .bind KeepsTo.trans (passes_runClient KeepsTo.refl root "revert" _) fun _ _ => ?_
    exact .bind KeepsTo.trans (passes_progress .reverted _) fun _ _ => reports _

/-- What is made for a shelf keeps to its files and the way to them. -/
theorem passes_create {root : Path} (spelled : Spelled (settings.shelvesPath root))
    (found : ∀ patchPath other,
      ((settings.prepare request).run machine).result = .ok (other, patchPath) → other = root) :
    Passes (KeepsTo true (settings.shelvesPath root) request.name) (settings.create request)
      machine := by
  refine .bind_reads KeepsTo.refl (reads_prepare settings request) fun prepared ended => ?_
  obtain ⟨other, patchPath⟩ := prepared
  obtain rfl := found _ _ ended
  have patchOwn : IsShelfFile (settings.shelvesPath other) request.name patchPath :=
    ⟨_, List.mem_cons_self, (prepared_of_ok ended).named⟩
  refine .bind KeepsTo.trans (passes_runClient KeepsTo.refl other "diff" _) fun patch _ => ?_
  split
  · exact .ofReads KeepsTo.refl (.fail _)
  · refine .bind KeepsTo.trans (passes_progress .shelved _) fun _ _ => ?_
    split
    · exact .logged KeepsTo.refl _
    · refine .bind_reads KeepsTo.refl (.ofChecked _) fun message _ => ?_
      refine .bind_reads KeepsTo.refl (.ofChecked _) fun logPath named => ?_
      have logOwn : IsShelfFile (settings.shelvesPath other) request.name logPath := by
        rw [Effect.run_ofChecked] at named
        exact ⟨_, List.mem_cons_of_mem _ List.mem_cons_self, mapError_eq_ok_iff.1 named⟩
      refine .bind KeepsTo.trans ?_ fun _ _ => passes_takeOut other patch
      exact passes_explainingAfter _ (passes_writeFiles spelled patchOwn logOwn _ message)
        fun _ => passes_unlinkIfPresent spelled patchOwn

/-- Both files may go, and nothing else. -/
theorem passes_removeFiles (spelled : Spelled directory)
    (patchOwn : IsShelfFile directory name patchPath) :
    Passes (KeepsTo adds directory name) (removeFiles directory patchPath name) machine := by
  refine .bind KeepsTo.trans (passes_unlink spelled patchOwn) fun _ _ => ?_
  refine .bind_reads KeepsTo.refl (.ofChecked _) fun logPath named => ?_
  rw [Effect.run_ofChecked] at named
  exact passes_unlinkIfPresent spelled
    ⟨_, List.mem_cons_of_mem _ List.mem_cons_self, mapError_eq_ok_iff.1 named⟩

/-- The patch that is found is a file of the shelf. -/
theorem isShelfFile_of_existingPatch
    (looked : ((existingPatch directory name).run machine).result = .ok path) :
    IsShelfFile directory name path := by
  obtain ⟨stem, isStem, rfl, -⟩ := exists_of_existingPatch looked
  exact ⟨_, List.mem_cons_self, isStem.shelfFile _ isSuffix_patch⟩

/-- A deletion keeps to the files of the shelf. -/
theorem passes_delete {root : Path} {text : Text} {dryRun : Bool}
    (spelled : Spelled (settings.shelvesPath root))
    (found : ∀ other, ((findRoot text).run machine).result = .ok other → other = root) :
    Passes (KeepsTo adds (settings.shelvesPath root) name) (settings.delete name text dryRun)
      machine := by
  refine .bind_reads KeepsTo.refl (reads_findRoot text) fun other ended => ?_
  obtain rfl := found _ ended
  refine .bind_reads KeepsTo.refl (reads_existingPatch _ _) fun patchPath looked => ?_
  cases dryRun with
  | true => exact passes_progress .deleted _
  | false =>
      refine .bind KeepsTo.trans ?_ fun _ _ => passes_progress .deleted _
      exact passes_explainingAfter _
        (passes_removeFiles spelled (isShelfFile_of_existingPatch looked))
        fun _ => .ofReads KeepsTo.refl (.pure ())

/-- Once the client has applied a patch that can still be read, the store goes on with a deletion
at most. -/
theorem passes_finishApply {first root : Path} {kept : Bool}
    (spelled : Spelled (settings.shelvesPath root))
    (found : ∀ content, machine.tree.read machine.directory patchPath = .ok content →
      ∀ other, ((findRoot first.toText).run machine).result = .ok other → other = root) :
    Passes (KeepsTo adds (settings.shelvesPath root) name)
      (settings.finishApply first patchPath name kept) machine := by
  have reads := reads_explaining ("Can't read shelf '" ++ name ++ "'")
    (Machine.reads_access fun tree base => tree.read base patchPath)
  refine .bind_reads KeepsTo.refl reads fun content read => ?_
  rw [run_explaining, worded_eq_ok_iff, Machine.run_access] at read
  refine .bind KeepsTo.trans (passes_progress .patched _) fun _ _ => ?_
  rw [Effect.run_emitAll]
  split
  · exact .ofReads KeepsTo.refl (.pure ())
  · exact passes_delete spelled (found content (mapError_eq_ok_iff.1 read))

end WorkingCopyStore

end PatchShelf
