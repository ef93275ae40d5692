/-
Module: PatchShelf.DiffStat
Purpose: Summaries of patches by an external program.
Main exports:
  DiffStat.summarize
-/
import PatchShelf.Machine
import PatchShelf.Text.Blank
import PatchShelf.Text.Lines

/-!
A summary only decorates a listing, so a program that is missing or fails gives
an empty summary and not a failure.
-/

namespace PatchShelf

namespace DiffStat

open Machine (Operation)

/-- The name under which summaries write to the log. -/
def logger : Text := "shelving.adapters.diffstat.command"

/-- Program output as text: what is not UTF-8 is replaced, line ends become line
feeds. -/
def outputText (output : Bytes) : Text :=
  (Utf8.decodeReplaced output).uniformLines

/-- The summary of a patch, or nothing. -/
def summarize (program patchPath : Text) : Operation Text := do
  let machine ← Effect.look
  match ← Effect.attempt (Machine.call program machine.directory [patchPath]) with
  | .error (.fault (.system errno path)) =>
    Effect.emit (.logged ⟨.warning, logger,
      "Can't run " ++ program ++ ": " ++ (Fault.system errno path).message⟩)
    pure []
  | .error reason => Effect.stop reason
  | .ok reply =>
    if reply.status = 0 then pure (outputText reply.output)
    else
      Effect.emit (.logged ⟨.debug, logger,
        program ++ " exited with status " ++ Text.ofInt reply.status ++ " for " ++ patchPath
          ++ ": " ++ (outputText reply.errors).strip⟩)
      pure []

end DiffStat

end PatchShelf
