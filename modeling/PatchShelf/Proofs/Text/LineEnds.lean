/-
Module: PatchShelf.Proofs.Text.LineEnds
Purpose: What uniform line ends mean for the bytes of a text.
Main exports:
  Bytes.uniformLines, Utf8.encode_uniformLines, Bytes.uniformLines_eq_self_iff,
  Utf8.decodeEscaped_uniformLines
-/
import PatchShelf.Proofs.Text.Lines
import PatchShelf.Proofs.Text.Utf8

/-!
Making line ends uniform is defined on text.  The same rule can be read off the
bytes: a carriage return, alone or before a line feed, becomes a line feed, and no
other byte changes.  So a byte string stays as it is exactly if it holds no
carriage return.  The rule may be applied before or after the bytes are read as text:
stray bytes on both sides of a line end never grow together.
-/

namespace PatchShelf

namespace Bytes

/-- The byte of a carriage return. -/
def carriageReturn : UInt8 := 0x0D

/-- The byte of a line feed. -/
def lineFeed : UInt8 := 0x0A

/-- Every carriage return, alone or before a line feed, becomes a line feed. -/
def uniformLines : Bytes → Bytes
  | [] => []
  | [byte] => [if byte = carriageReturn then lineFeed else byte]
  | byte :: next :: rest =>
    if byte = carriageReturn then
      if next = lineFeed then lineFeed :: uniformLines rest
      else lineFeed :: uniformLines (next :: rest)
    else byte :: uniformLines (next :: rest)

theorem uniformLines_cons_of_ne {byte : UInt8} (other : byte ≠ carriageReturn) (rest : Bytes) :
    uniformLines (byte :: rest) = byte :: uniformLines rest := by
  cases rest with
  | nil => simp [uniformLines, other]
  | cons next rest => simp [uniformLines, other]

/-- Bytes without a carriage return pass through. -/
theorem uniformLines_append_of_notMem {bytes : Bytes} (free : carriageReturn ∉ bytes)
    (rest : Bytes) : uniformLines (bytes ++ rest) = bytes ++ uniformLines rest := by
  induction bytes with
  | nil => rfl
  | cons byte bytes ih =>
      rw [List.mem_cons, not_or] at free
      rw [List.cons_append, uniformLines_cons_of_ne (Ne.symm free.1), ih free.2, List.cons_append]

/-- A carriage return by itself ends a line. -/
theorem uniformLines_return_of_head_ne {rest : Bytes} (other : rest.head? ≠ some lineFeed) :
    uniformLines (carriageReturn :: rest) = lineFeed :: uniformLines rest := by
  cases rest with
  | nil => simp [uniformLines]
  | cons next rest =>
      have different : next ≠ lineFeed := by simpa using other
      simp [uniformLines, different]

/-- With the line feed behind it, it ends just one. -/
theorem uniformLines_pair (rest : Bytes) :
    uniformLines (carriageReturn :: lineFeed :: rest) = lineFeed :: uniformLines rest := by
  simp [uniformLines]

/-- No carriage return is left. -/
theorem carriageReturn_notMem_uniformLines (bytes : Bytes) :
    carriageReturn ∉ uniformLines bytes := by
  have apart : carriageReturn ≠ lineFeed := by decide
  fun_induction uniformLines bytes with
  | case1 => simp
  | case2 byte =>
      by_cases same : byte = carriageReturn
      · simpa [same] using apart
      · simpa [same] using Ne.symm same
  | case3 rest ih => simp [apart, ih]
  | case4 next rest _ ih => simp [apart, ih]
  | case5 byte next rest other ih => simp [Ne.symm other, ih]

/-- A byte string has uniform line ends exactly if it holds no carriage return. -/
theorem uniformLines_eq_self_iff (bytes : Bytes) :
    uniformLines bytes = bytes ↔ carriageReturn ∉ bytes := by
  constructor
  · intro same
    rw [← same]
    exact carriageReturn_notMem_uniformLines bytes
  · intro free
    have whole := uniformLines_append_of_notMem free []
    rwa [List.append_nil, show uniformLines [] = [] from rfl, List.append_nil] at whole

end Bytes

namespace Text

theorem uniformLines_pair (rest : Text) :
    uniformLines (.char '\r' :: .char '\n' :: rest) = .char '\n' :: uniformLines rest := by
  rw [uniformLines]

theorem uniformLines_return_of_head_ne {rest : Text} (other : rest.head? ≠ some (.char '\n')) :
    uniformLines (.char '\r' :: rest) = .char '\n' :: uniformLines rest := by
  rw [uniformLines.eq_3]
  rintro more rfl
  exact other rfl

/-- A text without a carriage return passes through. -/
theorem uniformLines_append_of_notMem {text : Text} (free : Glyph.char '\r' ∉ text)
    (rest : Text) : uniformLines (text ++ rest) = text ++ uniformLines rest := by
  induction text with
  | nil => rfl
  | cons glyph text ih =>
      rw [List.mem_cons, not_or] at free
      rw [List.cons_append, uniformLines_cons_of_ne (Ne.symm free.1), ih free.2, List.cons_append]

/-- A text without carriage returns is uniform as it is. -/
theorem uniformLines_of_notMem {text : Text} (free : Glyph.char '\r' ∉ text) :
    uniformLines text = text := by
  have whole := uniformLines_append_of_notMem free []
  rwa [List.append_nil, show uniformLines [] = [] from rfl, List.append_nil] at whole

/-- No carriage return is left in a text either. -/
theorem carriageReturn_notMem_uniformLines (text : Text) :
    Glyph.char '\r' ∉ uniformLines text := by
  fun_induction uniformLines text with
  | case1 => simp
  | case2 rest ih => simp [ih]
  | case3 rest _ ih => simp [ih]
  | case4 glyph rest _ other ih =>
      rw [List.mem_cons, not_or]
      exact ⟨fun same => other same.symm, ih⟩

@[simp] theorem uniformLines_uniformLines (text : Text) :
    uniformLines (uniformLines text) = uniformLines text :=
  uniformLines_of_notMem (carriageReturn_notMem_uniformLines text)

end Text

namespace Utf8

/-- The byte comes from the character, and from nothing else. -/
theorem carriageReturn_mem_encode (text : Text) :
    Bytes.carriageReturn ∈ encode text ↔ Glyph.char '\r' ∈ text :=
  mem_encode_ascii (by decide) text

/-- A text that does not begin with a line feed is not encoded to bytes that do. -/
theorem head_encode_ne_lineFeed {text : Text} (other : text.head? ≠ some (.char '\n')) :
    (encode text).head? ≠ some Bytes.lineFeed := by
  cases text with
  | nil => simp [encode]
  | cons glyph rest =>
      intro begins
      obtain ⟨first, bytes, shape⟩ : ∃ first bytes, encodeGlyph glyph = first :: bytes := by
        cases glyph with
        | raw offset => exact ⟨_, _, rfl⟩
        | char scalar =>
            simp only [encodeGlyph, encodeScalar]
            split
            · exact ⟨_, _, rfl⟩
            · split
              · exact ⟨_, _, rfl⟩
              · split <;> exact ⟨_, _, rfl⟩
      have isFeed : first = Bytes.lineFeed := by
        simpa [encode, shape] using begins
      have member : Bytes.lineFeed ∈ encodeGlyph glyph := by
        rw [shape, isFeed]
        exact List.mem_cons_self
      rcases high_of_mem_encodeGlyph member with high | ⟨same, -⟩
      · exact absurd high (by decide)
      · exact other (by rw [same]; rfl)

/-- Uniform line ends of a text are uniform line ends of its bytes. -/
theorem encode_uniformLines (text : Text) :
    encode text.uniformLines = Bytes.uniformLines (encode text) := by
  fun_induction Text.uniformLines text with
  | case1 => rfl
  | case2 rest ih =>
      have pair : encode (.char '\r' :: .char '\n' :: rest) =
          Bytes.carriageReturn :: Bytes.lineFeed :: encode rest := rfl
      rw [pair, show encode (.char '\n' :: (Text.uniformLines rest)) =
        Bytes.lineFeed :: encode (Text.uniformLines rest) from rfl, ih]
      simp [Bytes.uniformLines]
  | case3 rest alone ih =>
      have other : (encode rest).head? ≠ some Bytes.lineFeed := by
        refine head_encode_ne_lineFeed ?_
        intro begins
        cases rest with
        | nil => simp at begins
        | cons next rest =>
            obtain rfl : next = .char '\n' := by simpa using begins
            exact alone rest rfl
      rw [show encode (.char '\r' :: rest) = Bytes.carriageReturn :: encode rest from rfl,
        Bytes.uniformLines_return_of_head_ne other, ← ih]
      rfl
  | case4 glyph rest _ notReturn ih =>
      have free : Bytes.carriageReturn ∉ encodeGlyph glyph := by
        intro member
        have inText := (carriageReturn_mem_encode [glyph]).1 (by simpa [encode] using member)
        exact notReturn (List.mem_singleton.1 inText).symm
      have whole := Bytes.uniformLines_append_of_notMem free (encode rest)
      rw [← ih] at whole
      exact whole.symm

theorem decodeEscaped_cons_ascii {byte : UInt8} (ascii : byte.toNat < 0x80) (rest : Bytes) :
    decodeEscaped (byte :: rest) = .char (Char.ofNat byte.toNat) :: decodeEscaped rest := by
  have value : (Char.ofNat byte.toNat).toNat = byte.toNat := toNat_char_ofNat (Or.inl (by omega))
  have alone : encodeScalar (Char.ofNat byte.toNat).toNat = [byte] := by
    rw [value, encodeScalar, if_pos ascii, UInt8.ofNat_toNat]
  have whole := decodeEscaped_encodeScalar_append (Char.ofNat byte.toNat) rest
  rwa [alone] at whole

/-- Decoding finds the carriage returns that are there. -/
theorem carriageReturn_mem_decodeEscaped (bytes : Bytes) :
    Glyph.char '\r' ∈ decodeEscaped bytes ↔ Bytes.carriageReturn ∈ bytes := by
  rw [← carriageReturn_mem_encode, encode_decodeEscaped]

/-- Bytes that do not begin with a line feed are not decoded to a text that does. -/
theorem decodeEscaped_head_ne_feed {bytes : Bytes} (other : bytes.head? ≠ some Bytes.lineFeed) :
    (decodeEscaped bytes).head? ≠ some (.char '\n') := by
  intro begins
  cases decoded : decodeEscaped bytes with
  | nil => simp [decoded] at begins
  | cons glyph rest =>
      obtain rfl : glyph = .char '\n' := by simpa [decoded] using begins
      have back := encode_decodeEscaped bytes
      rw [decoded] at back
      exact other (by rw [← back]; rfl)

/-- Line ends may be made uniform before or after bytes are read as text. -/
theorem decodeEscaped_uniformLines (bytes : Bytes) :
    decodeEscaped (Bytes.uniformLines bytes) = (decodeEscaped bytes).uniformLines := by
  induction size : bytes.length using Nat.strongRecOn generalizing bytes with
  | ind length ih =>
      by_cases free : Bytes.carriageReturn ∉ bytes
      · rw [(Bytes.uniformLines_eq_self_iff bytes).2 free, Text.uniformLines_of_notMem
          (fun member => free ((carriageReturn_mem_decodeEscaped bytes).1 member))]
      · -- the first carriage return cuts both the bytes and the text
        obtain ⟨front, rest, rfl, frontFree⟩ :=
          List.eq_append_cons_of_mem (Decidable.not_not.1 free)
        have decodedFree : Glyph.char '\r' ∉ decodeEscaped front := fun member =>
          frontFree ((carriageReturn_mem_decodeEscaped front).1 member)
        have shorter : rest.length < length := by
          rw [← size, List.length_append, List.length_cons]
          omega
        rw [Bytes.uniformLines_append_of_notMem frontFree,
          decodeEscaped_append_ascii front (by decide),
          Text.uniformLines_append_of_notMem decodedFree,
          decodeEscaped_cons_ascii (show Bytes.carriageReturn.toNat < 0x80 by decide)]
        show _ = _ ++ Text.uniformLines (.char '\r' :: decodeEscaped rest)
        by_cases paired : rest.head? = some Bytes.lineFeed
        · obtain ⟨after, rfl⟩ : ∃ after, rest = Bytes.lineFeed :: after := by
            cases rest with
            | nil => simp at paired
            | cons first after => exact ⟨after, by rw [show first = _ by simpa using paired]⟩
          rw [List.length_cons] at shorter
          rw [Bytes.uniformLines_pair, decodeEscaped_append_ascii front (by decide),
            decodeEscaped_cons_ascii (by decide), decodeEscaped_cons_ascii (by decide),
            ih after.length (by omega) after rfl]
          exact congrArg (_ ++ ·) (Text.uniformLines_pair _).symm
        · rw [Bytes.uniformLines_return_of_head_ne paired,
            decodeEscaped_append_ascii front (by decide), decodeEscaped_cons_ascii (by decide),
            ih rest.length shorter rest rfl,
            Text.uniformLines_return_of_head_ne (decodeEscaped_head_ne_feed paired)]
          rfl

end Utf8

end PatchShelf
