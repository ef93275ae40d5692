/-
Module: PatchShelf.Instant
Purpose: Moments of the calendar years 1 to 9999, to the microsecond.
Main exports:
  Instant, Instant.ofMicros, Instant.epoch, CalendarDate.ofDays, Instant.stamp
-/
import PatchShelf.Failure

/-!
An instant counts the microseconds since the start of 1970, and lies between the
first microsecond of the year 1 and the last of the year 9999.
-/

namespace PatchShelf

/-- The first microsecond of the year 1. -/
def earliestMicros : Int := -62135596800000000

/-- The last microsecond of the year 9999. -/
def latestMicros : Int := 253402300799999999

theorem latest_inCalendar : earliestMicros ≤ latestMicros ∧ latestMicros ≤ latestMicros := by
  decide

/-- A moment, as the number of microseconds since the start of 1970. -/
structure Instant where
  micros : Int
  inCalendar : earliestMicros ≤ micros ∧ micros ≤ latestMicros
deriving Repr, DecidableEq

namespace Instant

/-- The start of 1970. -/
def epoch : Instant := ⟨0, by decide⟩

instance : Inhabited Instant := ⟨epoch⟩

/-- The instant that a number of microseconds means. -/
def ofMicros (micros : Int) : Except Fault Instant :=
  if inCalendar : earliestMicros ≤ micros ∧ micros ≤ latestMicros then .ok ⟨micros, inCalendar⟩
  else .error .dateOutOfRange

end Instant

/-- A day of the calendar. -/
structure CalendarDate where
  year : Int
  month : Int
  day : Int
deriving Repr, DecidableEq

/-- The date so many days after the first of January 1970.  Years are counted from
March, so that the leap day ends a year, in eras of 400 years or 146097 days. -/
def CalendarDate.ofDays (days : Int) : CalendarDate :=
  let sinceMarch := days + 719468
  let era := sinceMarch.fdiv 146097
  let dayOfEra := sinceMarch.fmod 146097
  let yearOfEra :=
    (dayOfEra - dayOfEra / 1460 + dayOfEra / 36524 - dayOfEra / 146096) / 365
  let dayOfYear := dayOfEra - (365 * yearOfEra + yearOfEra / 4 - yearOfEra / 100)
  let monthFromMarch := (5 * dayOfYear + 2) / 153
  let month := if monthFromMarch < 10 then monthFromMarch + 3 else monthFromMarch - 9
  ⟨yearOfEra + era * 400 + (if month ≤ 2 then 1 else 0), month,
    dayOfYear - (153 * monthFromMarch + 2) / 5 + 1⟩

/-- A number with zeros in front up to a width. -/
def zeroPadded (width : Nat) (number : Int) : Text :=
  let digits := Text.ofInt number
  List.replicate (width - digits.length) (Glyph.char '0') ++ digits

/-- Date and time of an instant, in universal time, to the millisecond. -/
def Instant.stamp (moment : Instant) : Text :=
  let date := CalendarDate.ofDays (moment.micros.fdiv 86400000000)
  let millis := (moment.micros.fmod 86400000000) / 1000
  zeroPadded 4 date.year ++ "-" ++ zeroPadded 2 date.month ++ "-" ++ zeroPadded 2 date.day
    ++ " " ++ zeroPadded 2 (millis / 3600000) ++ ":" ++ zeroPadded 2 (millis / 60000 % 60)
    ++ ":" ++ zeroPadded 2 (millis / 1000 % 60) ++ "," ++ zeroPadded 3 (millis % 1000)

end PatchShelf
