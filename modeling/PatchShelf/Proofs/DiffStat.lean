/-
Module: PatchShelf.Proofs.DiffStat
Purpose: What a summary is, by what the program answers.
Main exports:
  DiffStat.Passable, DiffStat.answer?, DiffStat.behind, DiffStat.summaryOf, DiffStat.answers,
  DiffStat.summaryOf_eq_nil_iff, DiffStat.run_summarize_of_passable,
  DiffStat.run_summarize_of_impassable, DiffStat.exists_summary
-/
import PatchShelf.DiffStat
import PatchShelf.Proofs.Machine.Calls
import PatchShelf.Proofs.Text.Lines

/-!
A program answers if its call is made.  Then the summary is its output, unless its status is
bad or it prints nothing; without an answer the summary is empty too.  Only a NUL in the call
is told apart from a program that is missing.
-/

namespace PatchShelf

namespace DiffStat

variable {program patchPath : Text} {machine : Machine}

/-- Neither the name of the program nor the path of the patch holds a NUL. -/
def Passable (program patchPath : Text) : Prop :=
  program.holds '\x00' = false ∧ patchPath.holds '\x00' = false

instance (program patchPath : Text) : Decidable (Passable program patchPath) :=
  inferInstanceAs (Decidable (_ ∧ _))

/-- What the program answers when it is called for a patch; nothing if no call is made. -/
def answer? (program : Text) (machine : Machine) (patchPath : Text) : Option Reply :=
  if machine.CanCall program machine.directory [patchPath] then some (machine.nextReply program)
  else none

/-- The machine behind the summary of a patch. -/
def behind (program : Text) (machine : Machine) (patchPath : Text) : Machine :=
  if machine.CanCall program machine.directory [patchPath] then machine.afterCall program
  else machine

/-- The answers of the program for one patch after the other. -/
def answers (program : Text) : Machine → (patchPaths : List Text) → List (Option Reply)
  | _, [] => []
  | machine, patchPath :: rest =>
    answer? program machine patchPath :: answers program (behind program machine patchPath) rest

/-- The summary that an answer gives. -/
def summaryOf : Option Reply → Text
  | none => []
  | some reply => if reply.status = 0 then outputText reply.output else []

theorem passable_iff :
    Passable program patchPath ↔ [program, patchPath].any (·.holds '\x00') = false := by
  simp [Passable]

/-! ### Empty summaries -/

theorem uniformLines_eq_nil_iff (text : Text) : text.uniformLines = [] ↔ text = [] := by
  fun_cases Text.uniformLines text <;> simp

theorem outputText_eq_nil_iff (output : Bytes) : outputText output = [] ↔ output = [] := by
  rw [outputText, uniformLines_eq_nil_iff, Utf8.decodeReplaced, List.map_eq_nil_iff]
  cases output with
  | nil => exact iff_of_true rfl rfl
  | cons first rest => simp [Utf8.pieces_cons]

/-- There is no summary exactly if the program is not run, fails or prints nothing. -/
theorem summaryOf_eq_nil_iff (answer : Option Reply) :
    summaryOf answer = [] ↔
      answer = none ∨ ∃ reply, answer = some reply ∧ (reply.status ≠ 0 ∨ reply.output = []) := by
  cases answer with
  | none => simp [summaryOf]
  | some reply =>
      by_cases succeeded : reply.status = 0
      · simp [summaryOf, succeeded, outputText_eq_nil_iff]
      · simp [summaryOf, succeeded]

/-! ### One summary -/

/-- A call without a NUL that is not made is refused by the system, or made to fail because the
directory of the call is lost. -/
theorem refused_of_closed (passable : Passable program patchPath)
    (closed : ¬ machine.CanCall program machine.directory [patchPath]) :
    (∃ errno path, (Machine.call program machine.directory [patchPath]).run machine =
        ⟨.error (.fault (.system errno path)), machine, []⟩) ∨
      ∃ reply, (Machine.call program machine.directory [patchPath]).run machine =
        ⟨.ok reply, machine, []⟩ ∧ reply.status ≠ 0 := by
  obtain ⟨result, ran, fails⟩ := Machine.exists_run_call closed
  cases result with
  | ok reply =>
      obtain rfl := fails reply rfl
      exact .inr ⟨_, ran, by decide⟩
  | error reason =>
      have stopped : ((Machine.call program machine.directory [patchPath]).run machine).result =
          .error reason := congrArg Outcome.result ran
      rcases Machine.stops_call _ _ _ reason stopped with ⟨errno, path, rfl⟩ | ⟨null, -⟩
      · exact .inl ⟨errno, path, ran⟩
      · exact absurd ((passable_iff.mp passable).symm.trans null) nofun

/-- Without a NUL in the call there is always a summary, the one that the answer gives; the
trail shows the call if it was made. -/
theorem run_summarize_of_passable (passable : Passable program patchPath) (machine : Machine) :
    let outcome := (summarize program patchPath).run machine
    outcome.result = .ok (summaryOf (answer? program machine patchPath)) ∧
      outcome.world = behind program machine patchPath ∧
      Activity.calls outcome.events = ((answer? program machine patchPath).map fun _ =>
        machine.callMade program machine.directory [patchPath]).toList := by
  intro outcome
  simp only [outcome]
  rw [summarize, Effect.Reads.look.run_bind]
  simp only [Effect.run_look]
  rw [Effect.run_bind, Effect.run_attempt]
  by_cases called : machine.CanCall program machine.directory [patchPath]
  · simp only [Machine.run_call called, answer?, behind, if_pos called, summaryOf]
    split
    · exact ⟨rfl, rfl, rfl⟩
    · exact ⟨rfl, rfl, rfl⟩
  · simp only [answer?, behind, if_neg called, summaryOf]
    obtain ⟨errno, path, refused⟩ | ⟨reply, failed, bad⟩ := refused_of_closed passable called
    · simp only [refused]
      exact ⟨rfl, rfl, rfl⟩
    · simp only [failed, if_neg bad]
      exact ⟨rfl, rfl, rfl⟩

/-- A call that would hold a NUL is not made, and this is not passed over. -/
theorem run_summarize_of_impassable (impassable : ¬ Passable program patchPath)
    (machine : Machine) :
    (summarize program patchPath).run machine = ⟨.error (.fault .embeddedNull), machine, []⟩ := by
  rw [passable_iff, Bool.not_eq_false] at impassable
  have called : Machine.call program machine.directory [patchPath] =
      Effect.stop (.fault .embeddedNull) := by
    rw [Machine.call, if_pos impassable]
  rw [summarize, Effect.Reads.look.run_bind]
  simp only [Effect.run_look, called]
  rfl

/-- There is always a summary, if an empty one, unless the call would hold a NUL. -/
theorem exists_summary (programClean : program.holds '\x00' = false)
    (patchClean : patchPath.holds '\x00' = false) (machine : Machine) :
    ∃ summary, ((summarize program patchPath).run machine).result = .ok summary :=
  ⟨_, (run_summarize_of_passable ⟨programClean, patchClean⟩ machine).1⟩

/-- With a NUL in its name the program gives no summary at all. -/
theorem result_summarize_of_null {program : Text} (null : program.holds '\x00' = true)
    (patchPath : Text) (machine : Machine) :
    ((summarize program patchPath).run machine).result = .error (.fault .embeddedNull) := by
  have impassable : ¬ Passable program patchPath := fun passable =>
    absurd (passable.1.symm.trans null) nofun
  rw [run_summarize_of_impassable impassable]

end DiffStat

end PatchShelf
