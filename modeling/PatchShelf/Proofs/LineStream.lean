/-
Module: PatchShelf.Proofs.LineStream
Purpose: What a stream for the results can refuse of a run.
Main exports:
  LineStream.strict_eq_none_iff, Report.takes_audience_iff, Report.runBefore_audience,
  Report.overheard_audience
-/
import PatchShelf.CommandLine.Run
import PatchShelf.Proofs.Effect
import PatchShelf.Proofs.Text.Utf8

/-!
A stream hears of a run what makes a line of the results, and nothing else.  So it makes no
difference if it takes all lines of the run, and the work of a store can be refused only where it
reports progress.
-/

namespace PatchShelf

/-- A stream of valid UTF-8 takes the lines without stray bytes, and no other. -/
theorem LineStream.strict_eq_none_iff (line : Text) :
    LineStream.strict line = none ↔ line.hasRaw = false := by
  rw [strict]
  cases noRaw : line.hasRaw with
  | false =>
      rw [Utf8.encodeValid_of_noRaw noRaw]
      exact iff_of_true rfl rfl
  | true =>
      cases encoded : Utf8.encodeValid line with
      | ok bytes => cases noRaw.symm.trans (Utf8.hasRaw_of_encodeValid encoded)
      | error failure => exact iff_of_false nofun nofun

namespace Report

variable {σ α : Type} {stream : LineStream}

/-- To take the events of a run is to take their lines. -/
theorem takes_audience_iff {events : List Event} :
    (audience stream).Takes events ↔ stream.Takes (events.filterMap outLine?) := by
  constructor
  · intro takes line member
    obtain ⟨event, inside, shown⟩ := List.mem_filterMap.1 member
    have taken := takes event inside
    rw [audience, shown] at taken
    exact taken
  · intro takes event member
    rw [audience]
    cases shown : outLine? event with
    | none => rfl
    | some line => exact takes line (List.mem_filterMap.2 ⟨event, member, shown⟩)

/-- What makes no line is not refused. -/
theorem takes_audience_of_lineless {events : List Event}
    (lineless : events.filterMap outLine? = []) : (audience stream).Takes events := by
  rw [takes_audience_iff, lineless]
  exact List.forall_mem_nil _

/-- A stream that takes all lines of a run makes no difference to it. -/
theorem runBefore_audience {action : Session.Operation σ α} {session : Session σ}
    (takes : stream.Takes ((action.run session).events.filterMap outLine?)) :
    action.runBefore (audience stream) session = action.run session :=
  Effect.runBefore_of_takes (takes_audience_iff.2 takes)

/-- Of the work of a store, no more than progress is refused. -/
theorem overheard_audience (context : Context) (activity : Activity)
    (unlike : ∀ event, activity ≠ .notified event) :
    Session.overheard (audience stream) context activity = none := by
  cases activity with
  | notified event => exact absurd rfl (unlike event)
  | logged record => rfl
  | ran call => rfl

end Report

end PatchShelf
