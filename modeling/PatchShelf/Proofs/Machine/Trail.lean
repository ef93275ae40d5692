/-
Module: PatchShelf.Proofs.Machine.Trail
Purpose: What an operation reports on its trail, and operations that do no more than log.
Main exports:
  Activity.notices, Activity.reported, Machine.OnlyLogs, Machine.OnlyLogs.bind,
  Machine.NeverReports, Machine.NeverReports.bind
-/
import PatchShelf.Proofs.Machine.Calls

/-!
The progress events of a trail are its notices.  An operation that only logs leaves the
machine as it is: it reports no progress and calls no program.
-/

namespace PatchShelf

/-- The progress event that an activity is, if it is one. -/
def Activity.notice? : Activity → Option Notification
  | notified event => some event
  | logged _ => none
  | ran _ => none

/-- The progress events of a trail. -/
def Activity.notices (trail : List Activity) : List Notification :=
  trail.filterMap Activity.notice?

namespace Activity

@[simp] theorem notices_nil : notices [] = [] := rfl

@[simp] theorem notices_logged (record : LogRecord) (trail : List Activity) :
    notices (.logged record :: trail) = notices trail := rfl

@[simp] theorem notices_ran (call : ProgramCall) (trail : List Activity) :
    notices (.ran call :: trail) = notices trail := rfl

@[simp] theorem notices_append (first second : List Activity) :
    notices (first ++ second) = notices first ++ notices second :=
  List.filterMap_append

/-- Progress is reported path by path. -/
@[simp] theorem notices_progress (action : NotifyAction) (paths : List Text) :
    notices (progress action paths) = paths.map fun path => ⟨action, path⟩ := by
  induction paths with
  | nil => rfl
  | cons path rest ih => exact congrArg (_ :: ·) ih

/-- The paths that a trail reports for an action, in order. -/
def reported (action : NotifyAction) (trail : List Activity) : List Text :=
  (notices trail).filterMap fun event => if event.action = action then some event.path else none

variable {action other : NotifyAction}

/-- What is reported of two trails is put together. -/
theorem reported_append (first second : List Activity) :
    reported action (first ++ second) = reported action first ++ reported action second := by
  rw [reported, notices_append, List.filterMap_append]
  rfl

/-- Of progress of this kind, all paths are reported. -/
theorem reported_progress (paths : List Text) :
    reported action (progress action paths) = paths := by
  have each : ((fun event : Notification =>
      if event.action = action then some event.path else none) ∘
        fun path => ⟨action, path⟩) = some := funext fun _ => if_pos rfl
  rw [reported, notices_progress, List.filterMap_map, each, List.filterMap_some]

/-- Progress of one kind is not reported as one of another kind. -/
theorem reported_progress_of_ne (different : other ≠ action) (paths : List Text) :
    reported action (progress other paths) = [] := by
  rw [reported, notices_progress, List.filterMap_map, List.filterMap_eq_nil_iff]
  intro path member
  exact if_neg different

end Activity

namespace Machine

variable {α β : Type}

/-- On every machine, the operation changes nothing and leaves log records only. -/
def OnlyLogs (action : Operation α) : Prop :=
  ∀ machine, (action.run machine).world = machine ∧
    ∀ activity ∈ (action.run machine).events, ∃ record, activity = .logged record

namespace OnlyLogs

theorem ofReads {action : Operation α} (reads : Effect.Reads action) : OnlyLogs action := by
  intro machine
  obtain ⟨same, silent⟩ := reads machine
  exact ⟨same, by simp [silent]⟩

/-- A record for the log is a record for the log. -/
theorem emit (record : LogRecord) : OnlyLogs (Effect.emit (.logged record) : Operation Unit) :=
  fun _ => ⟨rfl, fun _ member => ⟨record, List.mem_singleton.1 member⟩⟩

/-- A sequence only logs if its parts do. -/
theorem bind {action : Operation α} {next : α → Operation β} (first : OnlyLogs action)
    (second : ∀ result, OnlyLogs (next result)) : OnlyLogs (action >>= next) := by
  intro machine
  refine Effect.run_bind_induction
    (motive := fun start trail finish =>
      finish = start ∧ ∀ activity ∈ trail, ∃ record, activity = Activity.logged record)
    ?_ (first machine) fun result _ => second result _
  rintro start _ _ _ _ ⟨rfl, logs⟩ ⟨rfl, more⟩
  exact ⟨rfl, fun activity member =>
    (List.mem_append.1 member).elim (logs activity) (more activity)⟩

/-- What only logs calls no program. -/
theorem calls_run {action : Operation α} (logs : OnlyLogs action) (machine : Machine) :
    Activity.calls (action.run machine).events = [] := by
  refine List.filterMap_eq_nil_iff.2 fun activity member => ?_
  obtain ⟨record, rfl⟩ := (logs machine).2 activity member
  rfl

/-- What only logs reports nothing. -/
theorem notices_eq {action : Operation α} (logs : OnlyLogs action) (machine : Machine) :
    Activity.notices (action.run machine).events = [] := by
  refine List.filterMap_eq_nil_iff.2 fun activity member => ?_
  obtain ⟨record, rfl⟩ := (logs machine).2 activity member
  rfl

end OnlyLogs

/-- On every machine, the operation reports no path for the action. -/
def NeverReports (reports : NotifyAction) (action : Operation α) : Prop :=
  ∀ machine, Activity.reported reports (action.run machine).events = []

namespace NeverReports

variable {reports : NotifyAction}

/-- What leaves no trail reports nothing. -/
theorem ofSilent {action : Operation α} (silent : Effect.Silent action) :
    NeverReports reports action := by
  intro machine
  rw [silent machine]
  rfl

/-- Progress of another kind is not reported as this one. -/
theorem progress {other : NotifyAction} (different : other ≠ reports) (paths : List Text) :
    NeverReports reports (Effect.emitAll (Activity.progress other paths) : Operation Unit) := by
  intro machine
  rw [Effect.run_emitAll]
  exact Activity.reported_progress_of_ne different paths

/-- A sequence never reports it if its parts do not. -/
theorem bind {action : Operation α} {next : α → Operation β} (first : NeverReports reports action)
    (second : ∀ result, NeverReports reports (next result)) :
    NeverReports reports (action >>= next) := by
  intro machine
  refine Effect.run_bind_induction
    (motive := fun _ trail _ => Activity.reported reports trail = [])
    ?_ (first machine) fun result _ => second result _
  intro _ _ _ _ _ before after
  rw [Activity.reported_append, before, after]
  rfl

end NeverReports

end Machine

end PatchShelf
