/-
Module: PatchShelf.Log
Purpose: Log records, which of them are shown, and how.
Main exports:
  Level, LogRecord, LogFormat, LogSettings, LogSettings.ofNames,
  LogSettings.lines
-/
import PatchShelf.Failure
import PatchShelf.Log.Vocabulary

/-!
A record has a level, the name of the part that wrote it and a message.  A
record is shown when its level is not below the threshold.  The text form
separates the fields by dashes; the structured form puts the fields as they
are between quotation marks.

A threshold is given by the name of a level, or by another name that stands for a
number.  The other names of the vocabulary are refused, and a name outside it
means warnings.
-/

namespace PatchShelf

/-- The severity of a log record. -/
inductive Level where
  | debug
  | info
  | warning
  | error
  | critical
deriving Repr, DecidableEq, Inhabited

namespace Level

/-- The number of a level, higher for what is more severe. -/
def number : Level → Nat
  | debug => 10
  | info => 20
  | warning => 30
  | error => 40
  | critical => 50

/-- The name of a level. -/
def label : Level → Text
  | debug => "DEBUG"
  | info => "INFO"
  | warning => "WARNING"
  | error => "ERROR"
  | critical => "CRITICAL"

/-- All levels, from the least severe. -/
def all : List Level := [debug, info, warning, error, critical]

/-- The level of a name. -/
def ofLabel? (name : Text) : Option Level :=
  all.find? fun level => level.label == name

end Level

/-- One entry of the log. -/
structure LogRecord where
  level : Level
  logger : Text
  message : Text
deriving Repr, DecidableEq, Inhabited

/-- The name that is shown for the part that wrote a record; without a name that is
the whole program. -/
def LogRecord.source (record : LogRecord) : Text :=
  if record.logger = [] then "root" else record.logger

/-- How log records are written. -/
inductive LogFormat where
  | text
  | structured
deriving Repr, DecidableEq, Inhabited

namespace LogFormat

/-- The name of a format in settings. -/
def label : LogFormat → Text
  | text => "text"
  | structured => "json"

/-- The format of a name; every name but that of the structured form means text. -/
def ofName (name : Text) : LogFormat :=
  if name = structured.label then structured else text

/-- One record at a moment, without the line end. -/
def line (moment : Text) : LogFormat → LogRecord → Text
  | text, record =>
    moment ++ " - " ++ record.source ++ " - " ++ record.level.label ++ " - " ++ record.message
  | structured, record =>
    "\x7b\"time\": \"" ++ moment ++ "\", \"level\": \"" ++ record.level.label
      ++ "\", \"message\": \"" ++ record.message ++ "\"\x7d"

end LogFormat

/-- Which records are shown, and how. -/
structure LogSettings where
  threshold : Nat
  format : LogFormat
deriving Repr, DecidableEq

namespace LogSettings

/-- The threshold that a name means; a name outside the vocabulary means warnings. -/
def thresholdOf (name : Text) : Except Fault Nat :=
  match Level.ofLabel? name with
  | some level => .ok level.number
  | none =>
    match ThresholdMeaning.ofName? name with
    | some (.number threshold) => .ok threshold
    | some (.word content) => .error (.unknownLevel content)
    | some (.thing shown) => .error (.noLevel shown)
    | none => .ok Level.warning.number

/-- The settings that the names of a level and a format mean. -/
def ofNames (level format : Text) : Except Fault LogSettings := do
  let threshold ← thresholdOf level
  pure ⟨threshold, LogFormat.ofName format⟩

/-- Is the record shown? -/
def shows (settings : LogSettings) (record : LogRecord) : Bool :=
  decide (settings.threshold ≤ record.level.number)

/-- The shown record as a text, if it is shown. -/
def line? (settings : LogSettings) (moment : Text) (record : LogRecord) : Option Text :=
  if settings.shows record then some (settings.format.line moment record) else none

/-- The lines that records leave in the log. -/
def lines (settings : LogSettings) (moment : Text) (records : List LogRecord) : List Text :=
  records.filterMap (settings.line? moment)

end LogSettings

end PatchShelf
