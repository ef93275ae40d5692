/-
Module: PatchShelf.Proofs.Listing
Purpose: What a listing shows of a shelf: its age, and the lines it takes.
Main exports:
  Listing.wholeMinutes_le, Listing.ageInMinutes_le, Listing.OnOneLine,
  Listing.splitLines_entryText, Listing.lt_length_header
-/
import PatchShelf.Listing
import PatchShelf.Proofs.Fraction
import PatchShelf.Proofs.Text.Lines

/-!
The age of a shelf comes from two roundings and a cut, each of which keeps the order of lengths
of time.  On both sides of the present the cut goes toward zero, so what was modified later is
never shown as older.

The header of a shelf is one line if its key is, and its columns make it longer than any line
of a message.  The message is cut at a number of glyphs, wherever its lines end.
-/

namespace PatchShelf

namespace Text

theorem unbroken_ofString_iff (source : String) :
    Unbroken (ofString source) ↔ ∀ scalar ∈ source.toList, (Glyph.char scalar).endsLine = false :=
  List.forall_mem_map

theorem endsLine_of_isDigit {scalar : Char} (digit : scalar.isDigit = true) :
    (Glyph.char scalar).endsLine = false := by
  have bounds : 48 ≤ scalar.toNat ∧ scalar.toNat ≤ 57 := by
    simpa [Char.isDigit, UInt32.le_iff_toNat_le] using digit
  simp only [Glyph.endsLine, Bool.or_eq_false_iff, Bool.and_eq_false_iff, decide_eq_false_iff_not,
    beq_eq_false_iff_ne]
  omega

theorem unbroken_ofNat (number : Nat) : Unbroken (ofNat number) := by
  apply (unbroken_ofString_iff _).2
  intro scalar member
  have digits : (toString number).toList = Nat.toDigits 10 number := String.toList_ofList
  rw [digits] at member
  exact endsLine_of_isDigit (Nat.isDigit_of_mem_toDigits (by decide) (by decide) member)

/-- A number is written without ends of lines. -/
theorem unbroken_ofInt (number : Int) : Unbroken (ofInt number) := by
  cases number with
  | ofNat natural => exact unbroken_ofNat natural
  | negSucc natural =>
      have signed : ofInt (.negSucc natural) = .char '-' :: ofNat (natural + 1) := by
        simp [ofInt, ofNat, ofString, toString, Int.repr]
      rw [signed, unbroken_cons]
      exact ⟨by decide, unbroken_ofNat _⟩

theorem unbroken_blanks (count : Nat) : Unbroken (List.replicate count (Glyph.char ' ')) := by
  intro glyph member
  rw [List.eq_of_mem_replicate member]
  decide

/-- To pad a text does not break it. -/
theorem Unbroken.padRight {text : Text} (unbroken : Unbroken text) (width : Nat) :
    Unbroken (text.padRight width) :=
  unbroken_append.2 ⟨unbroken, unbroken_blanks _⟩

theorem Unbroken.padLeft {text : Text} (unbroken : Unbroken text) (width : Nat) :
    Unbroken (text.padLeft width) :=
  unbroken_append.2 ⟨unbroken_blanks _, unbroken⟩

end Text

namespace Listing

/-! ### The age -/

/-- A longer time has no fewer whole minutes. -/
theorem wholeMinutes_le {shorter longer : Nat} (ordered : shorter ≤ longer) :
    wholeMinutes shorter ≤ wholeMinutes longer := by
  have micros : (shorter : ℚ) ≤ longer := Nat.cast_le.2 ordered
  refine Fraction.wholePart_le (Fraction.value_nearest_le ?_)
  rw [Fraction.value_divide, Fraction.value_divide]
  refine div_le_div_of_nonneg_right (Fraction.value_nearest_le ?_) (by norm_num)
  rw [Fraction.value_ofQuotient, Fraction.value_ofQuotient]
  exact div_le_div_of_nonneg_right micros (by norm_num)

/-- What was modified later is not older, whether the moments lie before or behind the present. -/
theorem ageInMinutes_le {now earlier later : Instant} (ordered : earlier.micros ≤ later.micros) :
    ageInMinutes now later ≤ ageInMinutes now earlier := by
  simp only [ageInMinutes]
  by_cases coming : now.micros - earlier.micros < 0
  · -- both lie in the future, the later one farther away
    rw [if_pos coming, if_pos (by omega), neg_le_neg_iff, Nat.cast_le]
    exact wholeMinutes_le (by omega)
  · rw [if_neg coming]
    split
    · exact (neg_nonpos.2 (Nat.cast_nonneg _)).trans (Nat.cast_nonneg _)
    · exact Nat.cast_le.2 (wholeMinutes_le (by omega))

/-- A microsecond less than a minute does not show, on either side of the present. -/
example : ageInMinutes .epoch ⟨59999999, by decide⟩ = 0 ∧
    ageInMinutes ⟨59999999, by decide⟩ .epoch = 0 ∧
    ageInMinutes .epoch ⟨60000000, by decide⟩ = -1 := by
  decide +kernel

/-! ### The lines -/

/-- What is shown of the message makes one line: none ends in it, or only at a carriage return
in the last place, which the line feed behind it completes. -/
def OnOneLine (record : ShelfRecord) : Prop :=
  ∃ words, Text.Unbroken words ∧
    (messageLine record = words ∨ messageLine record = words ++ [Glyph.char '\r'])

/-- The header line of a shelf is broken by nothing but its key. -/
theorem unbroken_header {key : Text} (unbroken : Text.Unbroken key) (record : ShelfRecord)
    (now : Instant) : Text.Unbroken (header key record now) := by
  have name : Text.Unbroken (Shelf.nameOf key) := by
    rw [Shelf.nameOf]
    split
    · exact unbroken.subset (List.take_subset _ _)
    · exact unbroken
  simp only [header, Text.unbroken_append]
  refine ⟨⟨⟨⟨⟨name.padRight _, ?_⟩, (Text.unbroken_ofInt _).padLeft _⟩, ?_⟩,
    (Text.unbroken_ofNat _).padLeft _⟩, ?_⟩
  · decide
  · decide
  · decide

/-- The columns make a header longer than a line of a message can be. -/
theorem lt_length_header (key : Text) (record : ShelfRecord) (now : Instant) :
    messageLength + 1 < (header key record now).length := by
  have blank : (" " : Text).length = 1 := rfl
  have old : (" mins old " : Text).length = 10 := rfl
  have bytes : (" bytes" : Text).length = 6 := rfl
  simp only [header, List.length_append, Text.length_padRight, Text.length_padLeft, blank, old,
    bytes, nameWidth, ageWidth, sizeWidth, messageLength]
  omega

/-- A message line is a blank and a message that was cut. -/
theorem length_messageLine_le (record : ShelfRecord) :
    (messageLine record).length ≤ messageLength + 1 := by
  have blank : (" " : Text).length = 1 := rfl
  rw [messageLine, List.length_append, List.length_take, blank]
  omega

/-- An entry is its header, and the lines of what is shown of its message. -/
theorem splitLines_entryText {key : Text} (unbroken : Text.Unbroken key) (record : ShelfRecord)
    (now : Instant) :
    (entryText key record now ++ [Glyph.char '\n']).splitLines =
      header key record now :: (messageLine record ++ [Glyph.char '\n']).splitLines := by
  have parts : entryText key record now ++ [Glyph.char '\n'] =
      header key record now ++ Glyph.char '\n' :: (messageLine record ++ [Glyph.char '\n']) := by
    simp [entryText, Text.ofString]
  have whole : (header key record now ++ [Glyph.char '\n']).splitLines =
      [header key record now] :=
    (Text.splitLines_feed_eq_iff _ _).2 ⟨unbroken_header unbroken record now, .inl rfl⟩
  rw [parts, Text.splitLines_cut _ (by decide) (by simp), whole]
  rfl

/-- A message is on one line if a print of it makes one. -/
theorem onOneLine_iff (record : ShelfRecord) :
    OnOneLine record ↔ (messageLine record ++ [Glyph.char '\n']).splitLines.length = 1 := by
  rw [List.length_eq_one_iff]
  exact exists_congr fun words => (Text.splitLines_feed_eq_iff _ words).symm

end Listing

end PatchShelf
