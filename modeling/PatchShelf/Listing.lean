/-
Module: PatchShelf.Listing
Purpose: How a listing shows a shelf, its age included.
Main exports:
  Listing.ageInMinutes, Listing.header, Listing.messageLine, Listing.entryText
-/
import PatchShelf.Shelf
import PatchShelf.Fraction

/-!
A shelf takes two lines in a listing.  The first has the name in a column of
thirty, the age in minutes and the size in bytes; the second has a blank and the
first fifty glyphs of the message.

The age goes through seconds: the difference in microseconds becomes the nearest
binary fraction of seconds, that the nearest one of minutes, and what comes
after the point is cut off.
-/

namespace PatchShelf

namespace Listing

/-- The width of the name column. -/
def nameWidth : Nat := 30

/-- The width of the age column. -/
def ageWidth : Nat := 6

/-- The width of the size column. -/
def sizeWidth : Nat := 10

/-- The number of glyphs of the message that are shown. -/
def messageLength : Nat := 50

/-- A length of time as whole minutes. -/
def wholeMinutes (micros : Nat) : Nat :=
  let seconds := (Fraction.ofQuotient micros 1000000 (by decide)).nearest
  (seconds.divide 60 (by decide)).nearest.wholePart

/-- The age at a moment of what was modified at another, in minutes; what lies in
the future has a negative age. -/
def ageInMinutes (now modified : Instant) : Int :=
  let micros := now.micros - modified.micros
  if micros < 0 then -(wholeMinutes micros.natAbs : Int) else wholeMinutes micros.natAbs

/-- The line with name, age and size. -/
def header (key : Text) (record : ShelfRecord) (now : Instant) : Text :=
  (Shelf.nameOf key).padRight nameWidth ++ " "
    ++ (Text.ofInt (ageInMinutes now record.modified)).padLeft ageWidth ++ " mins old "
    ++ (Text.ofNat record.size).padLeft sizeWidth ++ " bytes"

/-- The line with the beginning of the message. -/
def messageLine (record : ShelfRecord) : Text :=
  " " ++ record.message.take messageLength

/-- Both lines of a shelf. -/
def entryText (key : Text) (record : ShelfRecord) (now : Instant) : Text :=
  header key record now ++ "\n" ++ messageLine record

end Listing

end PatchShelf
