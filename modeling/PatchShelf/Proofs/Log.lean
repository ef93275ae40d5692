/-
Module: PatchShelf.Proofs.Log
Purpose: What the structured form of the log tells to a reader who follows its grammar.
Main exports:
  LogFormat.Tells, LogFormat.structured_line_eq, LogFormat.isDocument_structured_iff,
  LogFormat.tells_structured_iff, LogSettings.structured_lines
-/
import Mathlib.Data.List.Basic
import PatchShelf.Log
import PatchShelf.Proofs.Text.Json

/-!
The structured form puts the message between quotation marks as it is.  For a message of
plain glyphs the line stands for one object, which holds the moment, the level and the
message.  A message with a quotation mark, a backslash or a control character is never told
by its line: such a line follows no grammar, or stands for another message, because a string
that is not written plainly is written in more glyphs than it holds, and the line has no more
than the message.
-/

namespace PatchShelf

open Json (AllPlain IsDocument Reads Body)

namespace LogFormat

/-- The text is one line, and stands for an object with the level and the message of the
record. -/
def Tells (line : Text) (record : LogRecord) : Prop :=
  Glyph.char '\n' ∉ line ∧ ∃ members, IsDocument line (.object members) ∧
    Json.field? members "level" = some (.string record.level.label) ∧
    Json.field? members "message" = some (.string record.message)

/-- The members that the structured form has for a record at a moment. -/
def members (moment : Text) (record : LogRecord) : List (Text × Json.Value) :=
  [("time", .string moment), ("level", .string record.level.label),
    ("message", .string record.message)]

/-- The line of a record by the members of its object. -/
theorem structured_line_eq (moment : Text) (record : LogRecord) :
    structured.line moment record =
      .char '{' :: (Json.opening "time" ++ (moment ++ .char '"' :: .char ',' :: .char ' ' ::
        (Json.opening "level" ++ (record.level.label ++ .char '"' :: .char ',' :: .char ' ' ::
          (Json.opening "message" ++ (record.message ++ [.char '"', .char '}'])))))) := by
  simp [line, Json.opening, Text.ofString]

theorem allPlain_label (level : Level) : AllPlain level.label := by
  cases level <;> decide

/-- A line stands for a value exactly if that value is an object with the moment, the level
and then what is read from the rest. -/
theorem isDocument_structured_iff {moment : Text} (plain : AllPlain moment) (record : LogRecord)
    (value : Json.Value) :
    IsDocument (structured.line moment record) value ↔
      ∃ members rest, value = .object (("time", .string moment) ::
          ("level", .string record.level.label) :: members) ∧
        Reads (Json.opening "message" ++ (record.message ++ [.char '"', .char '}']))
          (.members members) rest ∧ Json.skip rest = [] := by
  have brace : ∀ text, Json.skip (.char '{' :: text) = .char '{' :: text :=
    Json.skip_cons_of_not_blank (by decide)
  have notEmpty : ∀ text rest, Json.skip (Json.opening "time" ++ text) ≠ .char '}' :: rest := by
    intro text rest closes
    rw [Json.opening, List.cons_append, Json.skip_cons_of_not_blank (by decide)] at closes
    exact absurd (List.cons.inj closes).1 (by decide)
  rw [IsDocument, structured_line_eq]
  simp only [brace, Json.reads_object_iff, notEmpty, and_false, false_or,
    Json.reads_plain_member_iff (show AllPlain "time" by decide) plain,
    Json.reads_plain_member_iff (show AllPlain "level" by decide) (allPlain_label record.level),
    Json.reads_members_space_iff]
  constructor
  · rintro ⟨rest, ⟨_, rfl, _, rfl, members, rfl, reads⟩, ends⟩
    exact ⟨members, rest, rfl, reads, ends⟩
  · rintro ⟨members, rest, rfl, reads, ends⟩
    exact ⟨rest, ⟨_, rfl, _, rfl, members, rfl, reads⟩, ends⟩

/-- The line of a plain message stands for one object. -/
theorem isDocument_structured_of_plain {moment : Text} (plain : AllPlain moment)
    {record : LogRecord} (message : AllPlain record.message) (value : Json.Value) :
    IsDocument (structured.line moment record) value ↔
      value = .object (members moment record) := by
  rw [isDocument_structured_iff plain]
  simp only [Json.reads_plain_last_iff (show AllPlain "message" by decide) message]
  constructor
  · rintro ⟨_, _, rfl, ⟨rfl, rfl⟩, -⟩
    rfl
  · rintro rfl
    exact ⟨_, [], rfl, ⟨rfl, rfl⟩, rfl⟩

/-- A message that is not plain is told by no member that is read from its own text. -/
theorem plain_of_reads_message {message rest : Text} {members : List (Text × Json.Value)}
    (reads : Reads (Json.opening "message" ++ (message ++ [.char '"', .char '}']))
      (.members members) rest)
    {name : Text} (held : (name, .string message) ∈ members) : AllPlain message := by
  obtain ⟨read, value, behind, later, rfl, member, ends⟩ := Json.reads_members_iff.mp reads
  obtain ⟨-, content, rfl, body⟩ :=
    (Json.readsMember_opening_iff (show AllPlain "message" by decide)).mp member
  have length : (message ++ [Glyph.char '"', .char '}']).length = message.length + 2 := by simp
  obtain same | held := List.mem_cons.mp held
  · -- the first string is the message: it was written in as many glyphs as it holds
    obtain ⟨-, rfl⟩ : name = read ∧ message = content := by simpa using same
    obtain ⟨allPlain, -⟩ | shorter := body.plain_or_shorter
    · exact allPlain
    · obtain ⟨-, closes⟩ | ⟨next, goesOn, -⟩ := ends
      · have := Json.length_lt_of_skip closes
        omega
      · have := Json.length_lt_of_skip goesOn
        omega
  · -- a later member has less text left than the message is long
    obtain ⟨rfl, -⟩ | ⟨next, goesOn, others⟩ := ends
    · exact absurd held List.not_mem_nil
    · have := body.length_lt
      have := Json.length_lt_of_skip goesOn
      have := others.length_content_lt held
      omega

theorem feed_notMem_structured {moment : Text} (plain : AllPlain moment) {record : LogRecord}
    (message : AllPlain record.message) :
    Glyph.char '\n' ∉ structured.line moment record := by
  have apart : ∀ {text}, AllPlain text → Glyph.char '\n' ∉ text := fun plain held =>
    absurd (plain _ held) (by decide)
  simp [structured_line_eq, Json.opening, Text.ofString, apart plain, apart message,
    apart (allPlain_label record.level)]

/-- The structured form tells a record exactly if its message is plain. -/
theorem tells_structured_iff {moment : Text} (plain : AllPlain moment) (record : LogRecord) :
    Tells (structured.line moment record) record ↔ AllPlain record.message := by
  constructor
  · rintro ⟨-, all, document, -, message⟩
    obtain ⟨members, rest, same, reads, -⟩ := (isDocument_structured_iff plain record _).mp document
    obtain rfl := Json.Value.object.inj same
    -- the names of the first two members are other names
    have held : (("message" : Text), Json.Value.string record.message) ∈ members := by
      simpa [Text.ofString] using Json.mem_of_field? message
    exact plain_of_reads_message reads held
  · intro message
    exact ⟨feed_notMem_structured plain message, members moment record,
      (isDocument_structured_of_plain plain message _).mpr rfl, rfl, rfl⟩

end LogFormat

namespace LogSettings

theorem format_of_ofNames {level format : Text} {settings : LogSettings}
    (named : ofNames level format = .ok settings) : settings.format = LogFormat.ofName format := by
  simp only [ofNames] at named
  cases threshold : thresholdOf level with
  | error fault =>
      rw [threshold] at named
      cases named
  | ok number =>
      rw [threshold] at named
      cases named
      rfl

/-- With the structured form each shown record is one line, and the line tells the record
exactly if its message is plain; then it stands for nothing but the object of the moment, the
level and the message. -/
theorem structured_lines {level : Text} {settings : LogSettings}
    (named : ofNames level LogFormat.structured.label = .ok settings) {moment : Text}
    (plain : AllPlain moment) (records : List LogRecord) :
    settings.lines moment records =
        (records.filter settings.shows).map (LogFormat.structured.line moment) ∧
      ∀ record ∈ records,
        (LogFormat.Tells (LogFormat.structured.line moment record) record ↔
            AllPlain record.message) ∧
          (AllPlain record.message → ∀ value,
            IsDocument (LogFormat.structured.line moment record) value ↔
              value = .object (LogFormat.members moment record)) := by
  have format : settings.format = .structured := format_of_ofNames named
  constructor
  · rw [lines, ← List.filterMap_eq_filter, List.map_filterMap]
    refine List.filterMap_congr fun record _ => ?_
    cases shown : settings.shows record <;> simp [line?, Option.guard, shown, format]
  · intro record _
    exact ⟨LogFormat.tells_structured_iff plain record,
      LogFormat.isDocument_structured_of_plain plain⟩

/-- Of two warnings one is told, and the other holds a quotation mark and is not. -/
theorem structured_lines_of_warnings :
    let told : LogRecord := ⟨.warning, "x", "say hi"⟩
    let lost : LogRecord := ⟨.warning, "x", "say \"hi\""⟩
    ofNames "WARNING" "json" = .ok ⟨30, .structured⟩ ∧
      (lines ⟨30, .structured⟩ "2023-11-14 22:13:20,000" [told, lost]).length = 2 ∧
      LogFormat.Tells (LogFormat.structured.line "2023-11-14 22:13:20,000" told) told ∧
      ¬LogFormat.Tells (LogFormat.structured.line "2023-11-14 22:13:20,000" lost) lost := by
  intro told lost
  have named : ofNames "WARNING" LogFormat.structured.label = .ok ⟨30, .structured⟩ := by decide
  have plain : AllPlain "2023-11-14 22:13:20,000" := by decide
  obtain ⟨shown, all⟩ := structured_lines named plain [told, lost]
  refine ⟨named, ?_, ?_, ?_⟩
  · rw [shown]
    decide
  · exact ((all told (by simp)).1).mpr (by decide)
  · rw [(all lost (by simp)).1]
    decide

end LogSettings

end PatchShelf
