/-
Module: PatchShelf.FileTime
Purpose: Times of files, as the system keeps them and as they are read.
Main exports:
  FileTime, FileTime.ofInstant, FileTime.measured, FileTime.micros, FileTime.read, Instant.kept
-/
import PatchShelf.Fraction
import PatchShelf.Instant

/-!
The system keeps the time of a file as whole seconds since the start of 1970, in any year, and
nanoseconds.  It is read in two steps.  First it becomes a number of seconds, a binary fraction
with 53 significant digits; each operation on the way gives the nearest such fraction.  Then
that is rounded to the microsecond, halfway to the even one, and looked up in the calendar.
-/

namespace PatchShelf

/-- The microseconds of a second. -/
def microsPerSecond : Nat := 1000000

/-- The nanoseconds of a microsecond. -/
def nanosPerMicro : Nat := 1000

/-- The nanoseconds of a second. -/
def nanosPerSecond : Nat := 1000000000

/-- The time of a file.  The nanoseconds count on from the seconds, also before 1970. -/
structure FileTime where
  seconds : Int
  nanos : Nat
  withinSecond : nanos < nanosPerSecond
deriving Repr, DecidableEq

namespace FileTime

/-- The start of 1970. -/
def epoch : FileTime := ⟨0, 0, by decide⟩

instance : Inhabited FileTime := ⟨epoch⟩

/-- A moment as the time of a file. -/
def ofInstant (moment : Instant) : FileTime where
  seconds := moment.micros / microsPerSecond
  nanos := (moment.micros % microsPerSecond).toNat * nanosPerMicro
  withinSecond := by
    simp only [microsPerSecond, nanosPerMicro, nanosPerSecond]
    omega

instance : Coe Instant FileTime := ⟨ofInstant⟩

/-- The nanoseconds since the start of 1970. -/
def sinceEpoch (time : FileTime) : Int :=
  time.seconds * nanosPerSecond + time.nanos

/-- A billionth, as near as it is kept. -/
def billionth : Fraction :=
  (Fraction.ofQuotient 1 nanosPerSecond (by decide)).nearest

/-- The nanoseconds of a time as a part of a second. -/
def partOfSecond (time : FileTime) : Fraction :=
  (billionth.times time.nanos).nearest

/-- The seconds of a time, without their sign. -/
def wholeSeconds (time : FileTime) : Fraction :=
  (Fraction.ofQuotient time.seconds.natAbs 1 Nat.one_pos).nearest

/-- The number of seconds as which a time is read, without its sign. -/
def measured (time : FileTime) : Fraction :=
  if 0 ≤ time.seconds then (time.wholeSeconds.plus time.partOfSecond).nearest
  else (time.wholeSeconds.minus time.partOfSecond).nearest

/-- A number of seconds to the microsecond. -/
def toMicros (seconds : Fraction) : Nat :=
  seconds.wholePart * microsPerSecond + (seconds.afterPoint.times microsPerSecond).nearest.round

/-- The microseconds since the start of 1970 as which a time is read. -/
def micros (time : FileTime) : Int :=
  if 0 ≤ time.seconds then toMicros time.measured else -(toMicros time.measured : Int)

/-- The fault of a time that is no moment of the calendar.  Seconds are counted with 64 binary
digits, and years with 32 from 1900 on; a year is shown with 32 as well. -/
def offCalendar (micros : Int) : Fault :=
  let seconds := micros.fdiv microsPerSecond
  let year := (CalendarDate.ofDays (seconds.fdiv 86400)).year
  if seconds < -0x8000000000000000 ∨ 0x8000000000000000 ≤ seconds then .timeOutOfRange
  else if year - 1900 < -0x80000000 ∨ 0x80000000 ≤ year - 1900 then .system .valueTooLarge []
  else .yearOutOfRange (year.bmod 0x100000000)

/-- The moment as which a time is read, if it is one of the calendar. -/
def read (time : FileTime) : Except Fault Instant :=
  (Instant.ofMicros time.micros).mapError fun _ => offCalendar time.micros

end FileTime

/-- A moment after it was the time of a file, unless that led out of the calendar. -/
def Instant.kept (moment : Instant) : Except Fault Instant :=
  (FileTime.ofInstant moment).read

end PatchShelf
