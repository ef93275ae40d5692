/-
Module: PatchShelf.Proofs.Machine.Calls
Purpose: Calls of programs: whether they are made, and what they leave.
Main exports:
  Activity.calls, Machine.CanCall, Machine.nextReply, Machine.afterCall,
  Machine.run_call, Machine.exists_run_call, Machine.Callable, Machine.MakesNoCall,
  Machine.stops_call
-/
import PatchShelf.Proofs.Machine.Files

/-!
A call is made if no argument holds a NUL, the program can be found and may be run,
and the directory of the call is not lost.  Then the next reply of the program decides
what is left; otherwise the machine stays as it is, and no call shows in the trail.
-/

namespace PatchShelf

/-- The call that an activity shows. -/
def Activity.call? : Activity → Option ProgramCall
  | notified _ => none
  | logged _ => none
  | ran call => some call

/-- The calls in a trail of activities. -/
def Activity.calls (trail : List Activity) : List ProgramCall :=
  trail.filterMap Activity.call?

namespace Activity

@[simp] theorem calls_nil : calls [] = [] := rfl

@[simp] theorem calls_logged (record : LogRecord) (trail : List Activity) :
    calls (.logged record :: trail) = calls trail := rfl

@[simp] theorem calls_ran (call : ProgramCall) (trail : List Activity) :
    calls (.ran call :: trail) = call :: calls trail := rfl

@[simp] theorem calls_append (first second : List Activity) :
    calls (first ++ second) = calls first ++ calls second :=
  List.filterMap_append

@[simp] theorem calls_progress (action : NotifyAction) (paths : List Text) :
    calls (progress action paths) = [] := by
  induction paths with
  | nil => rfl
  | cons path rest ih => exact ih

end Activity

namespace Machine

/-- The name is one that a program of a machine may have. -/
def NamesProgram (name : Text) : Prop :=
  namesDirectory name = false ∧ isLongProgram name = false ∧ isRelativeProgram name = false

/-- A program is found exactly if it is one of the machine that may be run, in whatever directory
it is called. -/
theorem findProgram_eq_ok_iff (machine : Machine) (directory : Location) (name : Text)
    (script : Program) : machine.findProgram directory name = .ok script ↔
      NamesProgram name ∧ machine.programs.get? name = some script ∧ script.executable = true := by
  rw [findProgram, NamesProgram]
  by_cases unnamed : namesDirectory name = true
  · simp [unnamed]
  by_cases long : isLongProgram name = true
  · simp [unnamed, long]
  by_cases relative : isRelativeProgram name = true
  · simp [unnamed, long, relative]
  rw [if_neg unnamed, if_neg long, if_neg relative]
  simp only [Bool.not_eq_true] at unnamed long relative
  simp only [unnamed, long, relative, true_and, and_self]
  cases machine.programs.get? name with
  | none => by_cases path : name.holds '/' = true <;> simp [path]
  | some program =>
      by_cases runs : program.executable = true
      · simp only [runs, if_true, Except.ok.injEq, Option.some.injEq]
        constructor
        · rintro rfl
          exact ⟨rfl, runs⟩
        · exact And.left
      · simp only [runs, Option.some.injEq]
        constructor
        · intro refused
          cases refused
        · rintro ⟨rfl, alsoRuns⟩
          exact absurd alsoRuns runs

/-- Is a call of the program made at all? -/
structure CanCall (machine : Machine) (program : Text) (directory : Location)
    (arguments : List Text) : Prop where
  noNull : (program :: arguments).any (·.holds '\x00') = false
  found : ∃ script, machine.findProgram directory program = .ok script
  stands : directory.isLost = false

instance (machine : Machine) (program : Text) (directory : Location) (arguments : List Text) :
    Decidable (machine.CanCall program directory arguments) :=
  decidable_of_iff
    ((program :: arguments).any (·.holds '\x00') = false ∧
      (machine.findProgram directory program).isOk = true ∧ directory.isLost = false)
    ⟨fun open_ => ⟨open_.1, by
        have found := open_.2.1
        cases ended : machine.findProgram directory program with
        | error fault =>
            rw [ended] at found
            cases found
        | ok script => exact ⟨script, rfl⟩, open_.2.2⟩,
      fun open_ => ⟨open_.noNull, by
        obtain ⟨script, found⟩ := open_.found
        rw [found]
        rfl, open_.stands⟩⟩

/-- Whether a program can be called depends on the programs of the machine only. -/
theorem CanCall.of_programs {machine other : Machine} {program : Text} {directory : Location}
    {arguments : List Text} (same : machine.programs = other.programs)
    (open_ : machine.CanCall program directory arguments) :
    other.CanCall program directory arguments := by
  obtain ⟨script, found⟩ := open_.found
  refine ⟨open_.noNull, ⟨script, ?_⟩, open_.stands⟩
  rw [findProgram_eq_ok_iff, same] at found
  rw [findProgram_eq_ok_iff]
  exact found

/-- A program that can be called in one directory can be called in another one. -/
theorem CanCall.elsewhere {machine : Machine} {program : Text} {directory other : Location}
    {arguments others : List Text} (open_ : machine.CanCall program directory arguments)
    (noNull : (program :: others).any (·.holds '\x00') = false) (stands : other.isLost = false) :
    machine.CanCall program other others := by
  obtain ⟨script, found⟩ := open_.found
  refine ⟨noNull, ⟨script, ?_⟩, stands⟩
  rw [findProgram_eq_ok_iff] at found ⊢
  exact found

/-- The replies that a program of the machine will give. -/
def coming (machine : Machine) (program : Text) : List Reply :=
  ((machine.programs.get? program).map Program.replies).getD []

/-- What a program of the machine does when it is called next. -/
def nextReply (machine : Machine) (program : Text) : Reply :=
  (machine.coming program).headD .silent

/-- The machine after the next call of a program. -/
def afterCall (machine : Machine) (program : Text) : Machine :=
  { machine.afterChange (machine.nextReply program).change with
    programs := machine.programs.insert program ⟨true, (machine.coming program).tail⟩ }

/-- The next call of a program, as the trail shows it. -/
def callMade (machine : Machine) (program : Text) (directory : Location)
    (arguments : List Text) : ProgramCall :=
  ⟨program, directory.toPath.toText, arguments, machine.tree,
    (machine.nextReply program).change machine.tree⟩

/-- A call changes the files as the reply to it does. -/
@[simp] theorem tree_afterCall (machine : Machine) (program : Text) :
    (machine.afterCall program).tree = (machine.nextReply program).change machine.tree := rfl

/-- The program that is found has the replies that are to come. -/
theorem replies_of_findProgram {machine : Machine} {directory : Location} {name : Text}
    {script : Program} (found : machine.findProgram directory name = .ok script) :
    script.replies = machine.coming name := by
  rw [findProgram_eq_ok_iff] at found
  simp [coming, found.2.1]

variable {machine : Machine} {program : Text} {directory : Location} {arguments : List Text}

/-- A program that was called once can be called again. -/
theorem CanCall.afterCall (open_ : machine.CanCall program directory arguments)
    {others : List Text} (noNull : (program :: others).any (·.holds '\x00') = false) :
    (machine.afterCall program).CanCall program directory others := by
  obtain ⟨script, found⟩ := open_.found
  refine ⟨noNull, ⟨⟨true, (machine.coming program).tail⟩, ?_⟩, open_.stands⟩
  rw [findProgram_eq_ok_iff] at found ⊢
  exact ⟨found.1, by simp [Machine.afterCall], rfl⟩

/-- A call that is made gives the next reply. -/
theorem run_call (open_ : machine.CanCall program directory arguments) :
    (call program directory arguments).run machine =
      ⟨.ok (machine.nextReply program), machine.afterCall program,
        [.ran (machine.callMade program directory arguments)]⟩ := by
  obtain ⟨script, found⟩ := open_.found
  have replies := replies_of_findProgram found
  rw [call, if_neg (by simp [open_.noNull]), Effect.Reads.look.run_bind]
  simp only [Effect.run_look]
  rw [(Effect.Reads.ofAccess _).run_bind, Effect.run_ofAccess, found]
  simp only [mapError_ok]
  rw [if_neg (by simp [open_.stands])]
  simp [Effect.run_bind, Machine.nextReply, Machine.afterCall, Machine.callMade, replies]

/-- A call that is not made leaves the machine as it is, and its reply, if there is one,
is a failure without a word. -/
theorem exists_run_call (closed : ¬ machine.CanCall program directory arguments) :
    ∃ result, (call program directory arguments).run machine = ⟨result, machine, []⟩ ∧
      ∀ reply, result = .ok reply → reply = .failing := by
  rw [call]
  by_cases null : (program :: arguments).any (·.holds '\x00') = true
  · rw [if_pos null]
    exact ⟨_, rfl, nofun⟩
  · rw [if_neg null, Effect.Reads.look.run_bind]
    simp only [Effect.run_look]
    rw [(Effect.Reads.ofAccess _).run_bind, Effect.run_ofAccess]
    cases found : machine.findProgram directory program with
    | error fault => exact ⟨_, rfl, nofun⟩
    | ok script =>
        by_cases lost : directory.isLost = true
        · simp only [mapError_ok]
          rw [if_pos lost]
          exact ⟨.ok .failing, rfl, fun reply same => (Except.ok.inj same).symm⟩
        · exact absurd ⟨by simpa using null, ⟨script, found⟩, by simpa using lost⟩ closed

/-- The program can be called somewhere, with some arguments. -/
def Callable (machine : Machine) (program : Text) : Prop :=
  ∃ directory arguments, machine.CanCall program directory arguments

/-- A program can be called whatever the files are. -/
theorem Callable.withTree (callable : machine.Callable program) (tree : FileTree) :
    (machine.withTree tree).Callable program := by
  obtain ⟨directory, arguments, open_⟩ := callable
  exact ⟨directory, arguments, open_.of_programs (machine.programs_withTree tree).symm⟩

/-- A program that was called can be called again. -/
theorem Callable.afterCall (callable : machine.Callable program) :
    (machine.afterCall program).Callable program := by
  obtain ⟨directory, arguments, open_⟩ := callable
  exact ⟨directory, arguments, open_.afterCall open_.noNull⟩

/-! ### Operations that call no program -/

/-- The operation calls no program, whoever looks on. -/
def MakesNoCall {α : Type} (action : Operation α) : Prop :=
  ∀ audience machine, Activity.calls (action.runBefore audience machine).events = []

namespace MakesNoCall

variable {α β : Type}

/-- Who makes no call leaves none in the trail. -/
theorem calls_run {action : Operation α} (none : MakesNoCall action) (machine : Machine) :
    Activity.calls (action.run machine).events = [] :=
  none .willing machine

/-- Without a trail there is no call. -/
theorem ofSilent {action : Operation α} (silent : Effect.Silent action) : MakesNoCall action := by
  intro audience machine
  rw [silent.runBefore_eq, silent machine]
  rfl

theorem emitAll {events : List Activity} (unlike : Activity.calls events = []) :
    MakesNoCall (Effect.emitAll events : Operation Unit) :=
  fun _ _ => List.filterMap_eq_nil_iff.2 fun _ member =>
    List.filterMap_eq_nil_iff.1 unlike _ (Effect.mem_of_mem_runBefore_emitAll member)

/-- A sequence makes none if its parts make none. -/
theorem bind {action : Operation α} {next : α → Operation β} (first : MakesNoCall action)
    (second : ∀ result, MakesNoCall (next result)) : MakesNoCall (action >>= next) := by
  intro audience machine
  refine Effect.runBefore_bind_induction (motive := fun _ trail _ => Activity.calls trail = [])
    ?_ (first audience machine) fun result _ => second result audience _
  intro _ _ _ _ _ before after
  rw [Activity.calls_append, before, after]
  rfl

end MakesNoCall

/-! ### What stops a call -/

/-- The system refuses. -/
def IsSystem (reason : Stop) : Prop :=
  ∃ errno path, reason = .fault (.system errno path)

/-- An argument of a call holds a NUL. -/
def HoldsNull (arguments : List Text) (reason : Stop) : Prop :=
  arguments.any (·.holds '\x00') = true ∧ reason = .fault .embeddedNull

/-- The system refuses what is no program, if its name is clean. -/
theorem isSystem_refuseFile (machine : Machine) (directory : Location) {name : Text}
    (noNull : name.holds '\x00' = false) :
    IsSystem (.fault (machine.refuseFile directory name)) := by
  rw [refuseFile]
  split
  · exact ⟨_, _, rfl⟩
  · exact ⟨_, _, rfl⟩
  · rename_i other located
    rw [FileTree.locateText, noNull] at located
    cases walked : machine.tree.walkBytes directory .target (Utf8.encode name) with
    | ok spot =>
        rw [walked] at located
        cases located
    | error errno =>
        rw [walked] at located
        obtain rfl := Except.error.inj located
        exact ⟨_, _, rfl⟩

/-- A program that is not found is refused by the system. -/
theorem isSystem_of_findProgram {directory : Location} {name : Text} {fault : Fault}
    (noNull : name.holds '\x00' = false)
    (refused : machine.findProgram directory name = .error fault) : IsSystem (.fault fault) := by
  have file := isSystem_refuseFile machine directory noNull
  rw [findProgram] at refused
  split at refused
  · obtain rfl := Except.error.inj refused
    exact ⟨_, _, rfl⟩
  split at refused
  · obtain rfl := Except.error.inj refused
    exact ⟨_, _, rfl⟩
  split at refused
  · obtain rfl := Except.error.inj refused
    exact file
  split at refused
  · split at refused
    · cases refused
    · obtain rfl := Except.error.inj refused
      exact ⟨_, _, rfl⟩
  · split at refused
    · obtain rfl := Except.error.inj refused
      exact file
    · obtain rfl := Except.error.inj refused
      exact ⟨_, _, rfl⟩

/-- A call stops at the system, or for a NUL in its words. -/
theorem stops_call (program : Text) (directory : Location) (arguments : List Text) :
    Effect.StopsOnly (fun reason => IsSystem reason ∨ HoldsNull (program :: arguments) reason)
      (call program directory arguments) machine := by
  rw [call]
  by_cases null : (program :: arguments).any (·.holds '\x00') = true
  · rw [if_pos null]
    exact .stop (.inr ⟨null, rfl⟩)
  · have clean : program.holds '\x00' = false := by
      rw [List.any_cons, Bool.or_eq_true, not_or] at null
      simpa using null.1
    rw [if_neg null]
    refine .bind nofun fun world _ => ?_
    refine .bind_reads (.ofAccess _) ?_ fun found _ => ?_
    · refine .ofAccess fun fault refused => ?_
      exact .inl (isSystem_of_findProgram clean refused)
    · split
      · exact .pure _
      · exact .bind (.emit _) fun _ _ => .bind nofun fun _ _ => .pure _

end Machine

end PatchShelf
