/-
Module: PatchShelf.Proofs.Store.Encodable
Purpose: What the store can encode, and what it says when it makes a shelf.
Main exports:
  Utf8.encodeCodes?, Utf8.encodeCodes?_eq_some_iff, WorkingCopyStore.TellsUnencodable,
  WorkingCopyStore.ClientSays, WorkingCopyStore.stops_create_of_encodable
-/
import PatchShelf.Proofs.Store.Fidelity
import PatchShelf.Proofs.Store.Wording

/-!
A text is a list of code points, of which an encoder takes some and refuses others: besides the
scalar values it takes the stand-ins of stray bytes, and puts these bytes back.  The lists that
it takes are just the texts.  So a patch can always be encoded, and of the two texts of a shelf
only the log message can be refused, by the strict encoder.  A store that is given a message
which that one takes never says that it cannot encode a shelf; when these words come out of it
all the same, the client has used them.
-/

namespace PatchShelf

namespace Utf8

/-- The bytes of a code point.  A stand-in of a stray byte is written as that byte; other
surrogates, and numbers above the last code point, are refused. -/
def encodeCode? (code : Nat) : Option Bytes :=
  if code < 0xD800 ∨ 0xDFFF < code ∧ code < 0x110000 then some (encodeScalar code)
  else if 0xDC80 ≤ code ∧ code ≤ 0xDCFF then some [UInt8.ofNat (code - 0xDC00)]
  else none

/-- The bytes of code points, if none of them is refused. -/
def encodeCodes? : List Nat → Option Bytes
  | [] => some []
  | code :: rest =>
    match encodeCode? code, encodeCodes? rest with
    | some bytes, some more => some (bytes ++ more)
    | _, _ => none

theorem encodeCode?_code (glyph : Glyph) : encodeCode? glyph.code = some (encodeGlyph glyph) := by
  cases glyph with
  | char scalar =>
      have valid : scalar.toNat < 0xD800 ∨ 0xDFFF < scalar.toNat ∧ scalar.toNat < 0x110000 :=
        scalar.valid
      rw [Glyph.code, encodeCode?, if_pos valid, encodeGlyph]
  | raw offset =>
      have byte : 0xDC80 + offset.val - 0xDC00 = 0x80 + offset.val := by omega
      rw [Glyph.code, encodeCode?, if_neg (by omega), if_pos (by omega), byte, encodeGlyph]

/-- A code point that is not refused is that of a glyph. -/
theorem exists_of_encodeCode? {code : Nat} {bytes : Bytes}
    (encoded : encodeCode? code = some bytes) : ∃ glyph : Glyph, glyph.code = code := by
  rw [encodeCode?] at encoded
  split at encoded
  · rename_i valid
    exact ⟨.char (Char.ofNat code), toNat_char_ofNat valid⟩
  · split at encoded
    · rename_i stray
      exact ⟨.raw ⟨code - 0xDC80, by omega⟩, by simp only [Glyph.code]; omega⟩
    · cases encoded

/-- The code points that can be encoded are those of texts, and they have the bytes of these. -/
theorem encodeCodes?_eq_some_iff (codes : List Nat) (bytes : Bytes) :
    encodeCodes? codes = some bytes ↔ ∃ text : Text, text.codes = codes ∧ encode text = bytes := by
  induction codes generalizing bytes with
  | nil =>
      constructor
      · intro encoded
        exact ⟨[], rfl, Option.some.inj encoded⟩
      · rintro ⟨text, same, rfl⟩
        obtain rfl := List.map_eq_nil_iff.1 same
        rfl
  | cons code rest ih =>
      constructor
      · intro encoded
        rw [encodeCodes?] at encoded
        split at encoded
        · rename_i first more one others
          obtain ⟨glyph, rfl⟩ := exists_of_encodeCode? one
          obtain ⟨text, rfl, rfl⟩ := (ih more).1 others
          obtain rfl := Option.some.inj ((encodeCode?_code glyph).symm.trans one)
          exact ⟨glyph :: text, rfl, Option.some.inj encoded⟩
        · cases encoded
      · rintro ⟨text, same, rfl⟩
        obtain ⟨glyph, others, rfl, rfl, rfl⟩ := List.map_eq_cons_iff.1 same
        rw [encodeCodes?, encodeCode?_code, (ih _).2 ⟨others, rfl, rfl⟩]
        rfl

example : encodeCodes? [0x61, 0xDCFF, 0x20AC] = some [0x61, 0xFF, 0xE2, 0x82, 0xAC] := by decide

end Utf8

namespace WorkingCopyStore

open Effect (StopsOnly)
open Machine (Operation)

variable {settings : WorkingCopyStore} {request : CreateRequest} {root patchPath : Path}
  {machine : Machine}

/-! ### What the store says -/

/-- The store says that it cannot encode a shelf. -/
def TellsUnencodable (reason : Stop) : Prop :=
  ∃ message : Text, reason = .failure (ShelfStore.failure message) ∧
    message.beginsWith "Can't encode shelf" = true

/-- The client fails when the changes are captured or taken out, and this is what is made of it. -/
inductive ClientSays (settings : WorkingCopyStore) (machine : Machine) : Stop → Prop
  | capturing (bad : (settings.reply machine).status ≠ 0) :
      ClientSays settings machine (.failure (callFailure settings "diff" (settings.reply machine)))
  | takingOut (good : (settings.reply machine).status = 0)
      (bad : (settings.reply (machine.afterCall settings.program)).status ≠ 0) :
      ClientSays settings machine (.failure (callFailure settings "revert"
        (settings.reply (machine.afterCall settings.program))))

/-- The reason is another one than that a shelf cannot be encoded. -/
abbrev IsOther (reason : Stop) : Prop :=
  ¬ TellsUnencodable reason

theorem isOther_failure {message : Text}
    (unlike : message.beginsWith "Can't encode shelf" = false) :
    IsOther (.failure (ShelfStore.failure message)) := by
  rintro ⟨other, same, begins⟩
  obtain rfl := congrArg Failure.message (Stop.failure.inj same)
  exact Bool.false_ne_true (unlike.symm.trans begins)

theorem isOther_of_isFault (reason : Stop) (isFault : IsFault reason) : IsOther reason := by
  obtain ⟨fault, rfl⟩ := isFault
  rintro ⟨message, same, -⟩
  cases same

theorem isOther_shelfFile (directory : Path) (name suffix : Text) :
    OnlyStops IsOther (Effect.ofChecked (shelfFile directory name suffix)) :=
  .shelfFile (isOther_failure rfl)

theorem isOther_prepare (settings : WorkingCopyStore) (request : CreateRequest) :
    OnlyStops IsOther (settings.prepare request) :=
  .prepare isOther_of_isFault (fun _ => isOther_failure rfl) (fun _ => isOther_failure rfl)
    (isOther_failure rfl) (isOther_failure rfl)

/-- A call of the client stops for another reason, or in words of the client. -/
theorem stops_runClient_or_said (settings : WorkingCopyStore) (root : Path) (subcommand : Text)
    (arguments : List Text) (machine : Machine) :
    StopsOnly (fun reason => IsOther reason ∨ (settings.reply machine).status ≠ 0 ∧
        reason = .failure (callFailure settings subcommand (settings.reply machine)))
      (settings.runClient root subcommand arguments) machine := by
  have faults : OnlyStops IsFault
      (Machine.call settings.program (Location.ofPath root) (subcommand :: arguments)) := by
    intro machine reason stopped
    rcases Machine.stops_call _ _ _ reason stopped with ⟨errno, path, rfl⟩ | ⟨-, rfl⟩
    · exact ⟨_, rfl⟩
    · exact ⟨_, rfl⟩
  have refused : OnlyStops IsOther (explaining ("Can't run '" ++ settings.program ++ "'")
      (Machine.call settings.program (Location.ofPath root) (subcommand :: arguments))) :=
    .explainingAfter (.pure ()) (faults.weaken isOther_of_isFault) fun _ => isOther_failure rfl
  refine .bind (.emit _) fun _ _ => ?_
  refine .bind ((refused _).weaken fun _ => .inl) fun reply replied => ?_
  split
  · exact .pure _
  · rename_i bad
    refine .fail ?_
    rw [run_explaining, worded_eq_ok_iff] at replied
    by_cases called : settings.CanRun machine root subcommand arguments
    · rw [run_log, Machine.run_call called] at replied
      obtain rfl := Except.ok.inj replied
      exact .inr ⟨bad, rfl⟩
    · obtain ⟨result, ran, fails⟩ := Machine.exists_run_call called
      rw [run_log, ran] at replied
      obtain rfl := fails reply replied
      exact .inl (isOther_failure rfl)

/-! ### Making a shelf -/

theorem stops_takeOut_or_said (settings : WorkingCopyStore) (root : Path)
    (request : CreateRequest) (patch : Text) (machine : Machine) :
    StopsOnly (fun reason => IsOther reason ∨ (settings.reply machine).status ≠ 0 ∧
        reason = .failure (callFailure settings "revert" (settings.reply machine)))
      (settings.takeOut root request patch) machine := by
  rw [takeOut]
  cases request.keepLocal with
  | true => exact .emit _
  | false =>
      exact .bind (stops_runClient_or_said _ _ _ _ _) fun _ _ =>
        .bind (.emitAll _) fun _ _ => .emit _

/-- Files that are written leave the client as it is. -/
theorem reply_of_written {directory logPath : Path} {patch : Bytes} {message : Option Bytes}
    {lead : Text} {done : Unit}
    (written : ((explainingAfter (Machine.unlinkIfPresent patchPath) lead
      (writeFiles directory patchPath logPath patch message)).run machine).result = .ok done) :
    settings.reply ((explainingAfter (Machine.unlinkIfPresent patchPath) lead
      (writeFiles directory patchPath logPath patch message)).run machine).world =
        settings.reply machine := by
  have same := touchesTreeOnly_writeFiles directory patchPath logPath patch message machine
  cases ended : ((writeFiles directory patchPath logPath patch message).run machine).result with
  | ok done =>
      rw [world_explainingAfter, ended]
      simp only
      rw [same]
      rfl
  | error reason =>
      obtain ⟨shown, after, events, refused⟩ := exists_error_of_explainingAfter ended
      rw [refused] at written
      cases written

/-- A store that can encode the message saves a patch, or stops for another reason, or in words
of the client. -/
theorem stops_savePatch_or_said {message : Option Bytes}
    (encoded : encodeMessage request.name request.logMessage = .ok message)
    (root patchPath : Path) (patch : Text) (machine : Machine) :
    StopsOnly (fun reason => IsOther reason ∨ (settings.reply machine).status ≠ 0 ∧
        reason = .failure (callFailure settings "revert" (settings.reply machine)))
      (settings.savePatch root patchPath request patch) machine := by
  refine .bind_reads (.ofChecked _) (.ofChecked fun failure refused => ?_) fun _ _ => ?_
  · rw [encoded] at refused
    cases refused
  · refine .bind_reads (.ofChecked _) ((isOther_shelfFile _ _ _ _).weaken fun _ => .inl)
      fun logPath _ => ?_
    refine .bind (StopsOnly.weaken ?_ fun _ => .inl) fun done written => ?_
    · exact OnlyStops.explainingAfter ((OnlyStops.unlinkIfPresent _).weaken isOther_of_isFault)
        ((OnlyStops.writeFiles _ _ _ _ _).weaken isOther_of_isFault)
        (fun _ => isOther_failure rfl) machine
    · rw [← reply_of_written written]
      exact stops_takeOut_or_said settings root request patch _

/-- A store that can encode the log message makes the shelf, or stops for another reason than
that it cannot encode it, unless the client has used the words. -/
theorem stops_create_of_encodable {message : Option Bytes}
    (encoded : encodeMessage request.name request.logMessage = .ok message)
    (settings : WorkingCopyStore) (machine : Machine) :
    StopsOnly (fun reason => IsOther reason ∨ ClientSays settings machine reason)
      (settings.create request) machine := by
  refine .bind_reads (reads_prepare settings request)
    ((isOther_prepare settings request machine).weaken fun _ => .inl) fun prepared _ => ?_
  refine .bind ?_ fun patch captured => ?_
  · refine (stops_runClient_or_said _ _ _ _ _).weaken fun reason stopped => ?_
    obtain other | ⟨bad, rfl⟩ := stopped
    · exact .inl other
    · exact .inr (.capturing bad)
  · by_cases called : settings.CanRun machine prepared.1 "diff" (selection request)
    · rw [run_runClient called] at captured ⊢
      have good : (settings.reply machine).status = 0 := by
        by_contra bad
        rw [taken, if_neg bad] at captured
        cases captured
      split
      · exact .fail (.inl (isOther_failure rfl))
      · refine .bind_emitAll ?_
        split
        · exact .emit _
        · refine (stops_savePatch_or_said encoded _ _ _ _).weaken fun reason stopped => ?_
          obtain other | ⟨bad, rfl⟩ := stopped
          · exact .inl other
          · exact .inr (.takingOut good bad)
    · obtain ⟨reason, unmade⟩ := exists_run_runClient called
      rw [unmade] at captured
      cases captured

end WorkingCopyStore

end PatchShelf
