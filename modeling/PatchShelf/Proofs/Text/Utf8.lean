/-
Module: PatchShelf.Proofs.Text.Utf8
Purpose: Bytes survive decoding with stray bytes, and valid text survives encoding.
Main exports:
  Utf8.encode_decodeEscaped, Utf8.decodeEscaped_encode, Utf8.decodeEscaped_append_ascii,
  Utf8.decodeReplaced_encode, Utf8.decode_encode, Utf8.mem_encode_ascii
-/
import PatchShelf.Text.Utf8

/-!
Decoding cuts a byte string into pieces and keeps each byte of a broken piece as
a stray byte.  Two facts carry everything else: the glyphs of the front piece
encode to exactly the bytes that the piece took, and the bytes of an encoded
scalar value form one piece whatever follows them.
-/

namespace PatchShelf

namespace Utf8

/-- A byte that can follow a lead byte. -/
def IsTail (byte : UInt8) : Prop :=
  0x80 ≤ byte.toNat ∧ byte.toNat ≤ 0xBF

theorem toNat_char_ofNat {value : Nat} (valid : value.isValidChar) :
    (Char.ofNat value).toNat = value := by
  rw [Char.ofNat, dif_pos valid]
  rfl

/-- A byte is made from the number that it is. -/
theorem ofNat_eq_of_toNat {byte : UInt8} {value : Nat} (same : value = byte.toNat) :
    UInt8.ofNat value = byte := by
  rw [same]
  exact UInt8.ofNat_toNat

/-- What a lead byte announces, by the number of continuation bytes.  The first of
these keeps out overlong forms, surrogates and values above U+10FFFF. -/
theorem lead?_cases {byte : UInt8} {lead : Lead} (announced : lead? byte = some lead) :
    0x80 ≤ lead.low.toNat ∧ lead.high.toNat ≤ 0xBF ∧
      ((lead.count = 1 ∧ lead.payload = byte.toNat - 0xC0 ∧
          0xC2 ≤ byte.toNat ∧ byte.toNat ≤ 0xDF) ∨
        (lead.count = 2 ∧ lead.payload = byte.toNat - 0xE0 ∧
          0xE0 ≤ byte.toNat ∧ byte.toNat ≤ 0xEF ∧
          (byte.toNat = 0xE0 → 0xA0 ≤ lead.low.toNat) ∧
          (byte.toNat = 0xED → lead.high.toNat ≤ 0x9F)) ∨
        (lead.count = 3 ∧ lead.payload = byte.toNat - 0xF0 ∧
          0xF0 ≤ byte.toNat ∧ byte.toNat ≤ 0xF4 ∧
          (byte.toNat = 0xF0 → 0x90 ≤ lead.low.toNat) ∧
          (byte.toNat = 0xF4 → lead.high.toNat ≤ 0x8F))) := by
  simp only [lead?, UInt8.lt_iff_toNat_lt, UInt8.le_iff_toNat_le, ← UInt8.toNat_inj] at announced
  repeat' split at announced
  all_goals simp only [reduceCtorEq, Option.some.injEq] at announced
  all_goals
    subst announced
    simp at *
    omega

/-- The continuation bytes stand in front of what is left. -/
theorem continuations_isPrefix (count : Nat) (low high : UInt8) (bytes : Bytes) :
    continuations count low high bytes <+: bytes := by
  induction count generalizing low high bytes with
  | zero => exact List.nil_prefix
  | succ count ih =>
      cases bytes with
      | nil => exact List.nil_prefix
      | cons byte rest =>
          simp only [continuations]
          split
          · exact List.prefix_cons_inj byte |>.2 (ih 0x80 0xBF rest)
          · exact List.nil_prefix

/-- Within any lead's bounds, a continuation byte is a tail. -/
theorem isTail_of_mem_continuations {count : Nat} {low high : UInt8} {bytes : Bytes}
    (lowBound : 0x80 ≤ low.toNat) (highBound : high.toNat ≤ 0xBF) {byte : UInt8}
    (member : byte ∈ continuations count low high bytes) : IsTail byte := by
  induction count generalizing low high bytes with
  | zero => simp [continuations] at member
  | succ count ih =>
      cases bytes with
      | nil => simp [continuations] at member
      | cons first rest =>
          simp only [continuations] at member
          split at member
          · rename_i inRange
            rcases List.mem_cons.1 member with rfl | later
            · rw [UInt8.le_iff_toNat_le, UInt8.le_iff_toNat_le] at inRange
              exact ⟨by omega, by omega⟩
            · exact ih (by decide) (by decide) later
          · simp at member

/-- A stray byte is encoded as itself. -/
theorem encodeGlyph_strayByte {byte : UInt8} (high : 0x80 ≤ byte.toNat) :
    encodeGlyph (strayByte byte) = [byte] := by
  have small := byte.toNat_lt
  have same : 0x80 + byte.toNat % 128 = byte.toNat := by omega
  simp only [strayByte, encodeGlyph, Fin.ofNat]
  rw [ofNat_eq_of_toNat same]

/-- Stray bytes in a row are encoded as themselves. -/
theorem encode_map_strayByte {bytes : Bytes} (high : ∀ byte ∈ bytes, 0x80 ≤ byte.toNat) :
    encode (bytes.map strayByte) = bytes := by
  induction bytes with
  | nil => rfl
  | cons first rest ih =>
      rw [List.forall_mem_cons] at high
      simp only [encode, List.map_cons, List.flatMap_cons] at ih ⊢
      rw [encodeGlyph_strayByte high.1, ih high.2]
      rfl

/-- The first continuation byte keeps to the lead's own bounds. -/
theorem inRange_of_continuations_cons {count : Nat} {low high byte : UInt8}
    {bytes tail : Bytes} (shape : continuations count low high bytes = byte :: tail) :
    low.toNat ≤ byte.toNat ∧ byte.toNat ≤ high.toNat := by
  cases count with
  | zero => simp [continuations] at shape
  | succ count =>
      cases bytes with
      | nil => simp [continuations] at shape
      | cons first rest =>
          simp only [continuations] at shape
          split at shape
          · rename_i inRange
            obtain ⟨rfl, -⟩ := List.cons.inj shape
            rwa [UInt8.le_iff_toNat_le, UInt8.le_iff_toNat_le] at inRange
          · simp at shape

/-- Two bytes that are well-formed spell the scalar that is encoded as them. -/
theorem encodeScalar_two {first second : UInt8} (lower : 0xC2 ≤ first.toNat)
    (upper : first.toNat ≤ 0xDF) (tail : IsTail second) :
    encodeScalar ((first.toNat - 0xC0) * 64 + (second.toNat - 0x80)) = [first, second] := by
  obtain ⟨least, most⟩ := tail
  have one : 0xC0 + ((first.toNat - 0xC0) * 64 + (second.toNat - 0x80)) / 64 = first.toNat := by
    omega
  have two : 0x80 + ((first.toNat - 0xC0) * 64 + (second.toNat - 0x80)) % 64 = second.toNat := by
    omega
  rw [encodeScalar, if_neg (by omega), if_pos (by omega), ofNat_eq_of_toNat one,
    ofNat_eq_of_toNat two]

/-- Three bytes that are well-formed spell the scalar that is encoded as them; that it is the
shortest form is asked of the second one. -/
theorem encodeScalar_three {first second third : UInt8} (lower : 0xE0 ≤ first.toNat)
    (upper : first.toNat ≤ 0xEF) (shortest : first.toNat = 0xE0 → 0xA0 ≤ second.toNat)
    (secondTail : IsTail second) (thirdTail : IsTail third) :
    encodeScalar (((first.toNat - 0xE0) * 64 + (second.toNat - 0x80)) * 64
      + (third.toNat - 0x80)) = [first, second, third] := by
  obtain ⟨secondLeast, secondMost⟩ := secondTail
  obtain ⟨thirdLeast, thirdMost⟩ := thirdTail
  generalize spelled : ((first.toNat - 0xE0) * 64 + (second.toNat - 0x80)) * 64
    + (third.toNat - 0x80) = value
  have one : 0xE0 + value / 4096 = first.toNat := by omega
  have two : 0x80 + value / 64 % 64 = second.toNat := by omega
  have three : 0x80 + value % 64 = third.toNat := by omega
  rw [encodeScalar, if_neg (by omega), if_neg (by omega), if_pos (by omega),
    ofNat_eq_of_toNat one, ofNat_eq_of_toNat two, ofNat_eq_of_toNat three]

/-- Four bytes that are well-formed spell the scalar that is encoded as them. -/
theorem encodeScalar_four {first second third fourth : UInt8} (lower : 0xF0 ≤ first.toNat)
    (upper : first.toNat ≤ 0xF4) (shortest : first.toNat = 0xF0 → 0x90 ≤ second.toNat)
    (secondTail : IsTail second) (thirdTail : IsTail third) (fourthTail : IsTail fourth) :
    encodeScalar ((((first.toNat - 0xF0) * 64 + (second.toNat - 0x80)) * 64
      + (third.toNat - 0x80)) * 64 + (fourth.toNat - 0x80)) = [first, second, third, fourth] := by
  obtain ⟨secondLeast, secondMost⟩ := secondTail
  obtain ⟨thirdLeast, thirdMost⟩ := thirdTail
  obtain ⟨fourthLeast, fourthMost⟩ := fourthTail
  generalize spelled : (((first.toNat - 0xF0) * 64 + (second.toNat - 0x80)) * 64
    + (third.toNat - 0x80)) * 64 + (fourth.toNat - 0x80) = value
  have one : 0xF0 + value / 262144 = first.toNat := by omega
  have two : 0x80 + value / 4096 % 64 = second.toNat := by omega
  have three : 0x80 + value / 64 % 64 = third.toNat := by omega
  have four : 0x80 + value % 64 = fourth.toNat := by omega
  rw [encodeScalar, if_neg (by omega), if_neg (by omega), if_neg (by omega),
    ofNat_eq_of_toNat one, ofNat_eq_of_toNat two, ofNat_eq_of_toNat three,
    ofNat_eq_of_toNat four]

/-- A lead byte with all its continuation bytes spells a scalar value that is
encoded by these bytes. -/
theorem encodeScalar_spell {first : UInt8} {lead : Lead} {rest : Bytes}
    (announced : lead? first = some lead)
    (full : (continuations lead.count lead.low lead.high rest).length = lead.count) :
    (spell lead.payload (continuations lead.count lead.low lead.high rest)).isValidChar ∧
      encodeScalar (spell lead.payload (continuations lead.count lead.low lead.high rest)) =
        first :: continuations lead.count lead.low lead.high rest := by
  obtain ⟨lowBound, highBound, byCount⟩ := lead?_cases announced
  have tails : ∀ byte ∈ continuations lead.count lead.low lead.high rest, IsTail byte :=
    fun byte member => isTail_of_mem_continuations lowBound highBound member
  have firstRange : ∀ {byte tail},
      continuations lead.count lead.low lead.high rest = byte :: tail →
        lead.low.toNat ≤ byte.toNat ∧ byte.toNat ≤ lead.high.toNat :=
    inRange_of_continuations_cons
  generalize continuations lead.count lead.low lead.high rest = tail at full tails firstRange ⊢
  -- The range of the first continuation byte keeps out overlong forms and surrogates.
  rcases byCount with ⟨count, payload, range⟩ | ⟨count, payload, range⟩ | ⟨count, payload, range⟩
  · match tail, full.trans count with
    | [second], _ =>
      have secondTail := tails second (by simp)
      have least := secondTail.1
      have most := secondTail.2
      simp only [spell, List.foldl_cons, List.foldl_nil, payload]
      exact ⟨Or.inl (by omega), encodeScalar_two range.1 range.2 secondTail⟩
  · match tail, full.trans count with
    | [second, third], _ =>
      have secondTail := tails second (by simp)
      have thirdTail := tails third (by simp)
      have secondRange := firstRange rfl
      have bounds := And.intro secondTail.2 thirdTail.2
      simp only [spell, List.foldl_cons, List.foldl_nil, payload]
      refine ⟨?_, encodeScalar_three range.1 range.2.1 ?_ secondTail thirdTail⟩
      · simp only [Nat.isValidChar]
        omega
      · omega
  · match tail, full.trans count with
    | [second, third, fourth], _ =>
      have secondTail := tails second (by simp)
      have thirdTail := tails third (by simp)
      have fourthTail := tails fourth (by simp)
      have secondRange := firstRange rfl
      have bounds := And.intro secondTail (And.intro thirdTail.2 fourthTail.2)
      simp only [spell, List.foldl_cons, List.foldl_nil, payload]
      refine ⟨?_, encodeScalar_four range.1 range.2.1 ?_ secondTail thirdTail fourthTail⟩
      · simp only [Nat.isValidChar, IsTail] at bounds ⊢
        omega
      · omega

/-- The glyphs of the front piece encode to the bytes that the piece took. -/
theorem encode_front (first : UInt8) (rest : Bytes) :
    encode (front first rest).escaped = first :: rest.take (frontTail first rest) := by
  by_cases ascii : first < 0x80
  · have small : first.toNat < 0x80 := by
      simpa [UInt8.lt_iff_toNat_lt] using ascii
    simp only [front, frontTail, if_pos ascii, Piece.escaped, encode, List.flatMap_cons,
      List.flatMap_nil, encodeGlyph, List.take_zero, List.append_nil]
    rw [toNat_char_ofNat (Or.inl (by omega)), encodeScalar, if_pos small]
    rw [UInt8.ofNat_toNat]
  · have high : 0x80 ≤ first.toNat := by
      simpa [UInt8.lt_iff_toNat_lt] using ascii
    cases announced : lead? first with
    | none =>
        simp only [front, frontTail, if_neg ascii, announced, Piece.escaped, List.take_zero]
        exact encode_map_strayByte (by simpa using high)
    | some lead =>
        obtain ⟨lowBound, highBound, -⟩ := lead?_cases announced
        have taken : rest.take (continuations lead.count lead.low lead.high rest).length =
            continuations lead.count lead.low lead.high rest :=
          (List.prefix_iff_eq_take.1 (continuations_isPrefix ..)).symm
        have allHigh : ∀ byte ∈ first :: continuations lead.count lead.low lead.high rest,
            0x80 ≤ byte.toNat :=
          List.forall_mem_cons.2
            ⟨high, fun byte member => (isTail_of_mem_continuations lowBound highBound member).1⟩
        simp only [front, frontTail, if_neg ascii, announced, taken]
        split
        · rename_i full
          obtain ⟨valid, spelled⟩ := encodeScalar_spell announced full
          simp only [Piece.escaped, encode, List.flatMap_cons, List.flatMap_nil, encodeGlyph,
            List.append_nil]
          rw [toNat_char_ofNat valid, spelled]
        · split
          · exact encode_map_strayByte allHigh
          · exact encode_map_strayByte allHigh

/-- Decoding loses no byte: encoding puts every one back. -/
theorem encode_decodeEscaped (bytes : Bytes) : encode (decodeEscaped bytes) = bytes := by
  induction size : bytes.length using Nat.strongRecOn generalizing bytes with
  | ind length ih =>
      cases bytes with
      | nil => rfl
      | cons first rest =>
          have shorter : (rest.drop (frontTail first rest)).length < length := by
            simp only [List.length_cons, List.length_drop] at size ⊢
            omega
          have later := ih _ shorter _ rfl
          rw [decodeEscaped] at later
          rw [decodeEscaped, pieces_cons, List.flatMap_cons, encode_append, encode_front, later,
            List.cons_append, List.take_append_drop]

/-- A first byte of these announces one more. -/
theorem lead?_of_two {first : UInt8} (lower : 0xC2 ≤ first.toNat) (upper : first.toNat ≤ 0xDF) :
    lead? first = some ⟨1, first.toNat - 0xC0, 0x80, 0xBF⟩ := by
  have notLess : ¬ first < 0xC2 := by
    rw [UInt8.lt_iff_toNat_lt]
    exact Nat.not_lt.2 lower
  have within : first ≤ 0xDF := UInt8.le_iff_toNat_le.2 upper
  rw [lead?, if_neg notLess, if_pos within]

/-- A first byte of these announces two more, and its bounds admit the second one. -/
theorem lead?_of_three {first second : UInt8} (lower : 0xE0 ≤ first.toNat)
    (upper : first.toNat ≤ 0xEF) (tail : IsTail second)
    (shortest : first.toNat = 0xE0 → 0xA0 ≤ second.toNat)
    (noSurrogate : first.toNat = 0xED → second.toNat ≤ 0x9F) :
    ∃ lead, lead? first = some lead ∧ lead.count = 2 ∧ lead.payload = first.toNat - 0xE0 ∧
      lead.low ≤ second ∧ second ≤ lead.high := by
  obtain ⟨least, most⟩ := tail
  simp only [lead?, UInt8.lt_iff_toNat_lt, UInt8.le_iff_toNat_le, ← UInt8.toNat_inj]
  rw [if_neg (by simp; omega), if_neg (by simp; omega)]
  repeat' split
  all_goals
    simp at *
    try omega

/-- A first byte of these announces three more, and its bounds admit the second one. -/
theorem lead?_of_four {first second : UInt8} (lower : 0xF0 ≤ first.toNat)
    (upper : first.toNat ≤ 0xF4) (tail : IsTail second)
    (shortest : first.toNat = 0xF0 → 0x90 ≤ second.toNat)
    (inUnicode : first.toNat = 0xF4 → second.toNat ≤ 0x8F) :
    ∃ lead, lead? first = some lead ∧ lead.count = 3 ∧ lead.payload = first.toNat - 0xF0 ∧
      lead.low ≤ second ∧ second ≤ lead.high := by
  obtain ⟨least, most⟩ := tail
  simp only [lead?, UInt8.lt_iff_toNat_lt, UInt8.le_iff_toNat_le, ← UInt8.toNat_inj]
  rw [if_neg (by simp; omega), if_neg (by simp; omega), if_neg (by simp; omega),
    if_neg (by simp; omega), if_neg (by simp; omega)]
  repeat' split
  all_goals
    simp at *
    try omega

/-- A lead with all the bytes that it announces is one scalar. -/
theorem pieces_of_full {first : UInt8} {lead : Lead} (tail : Bytes) {rest : Bytes}
    (announced : lead? first = some lead)
    (taken : continuations lead.count lead.low lead.high (tail ++ rest) = tail)
    (full : tail.length = lead.count) :
    pieces (first :: (tail ++ rest)) =
      .scalar (Char.ofNat (spell lead.payload tail)) :: pieces rest := by
  obtain ⟨-, -, byCount⟩ := lead?_cases announced
  have notAscii : ¬ first < 0x80 := by
    rw [UInt8.lt_iff_toNat_lt]
    simp
    omega
  rw [pieces_cons]
  simp only [front, frontTail, if_neg notAscii, announced, taken, full, if_true]
  rw [← full, List.drop_left]

/-- A lead byte and one tail are one piece. -/
theorem pieces_two {first second : UInt8} {rest : Bytes} (lower : 0xC2 ≤ first.toNat)
    (upper : first.toNat ≤ 0xDF) (tail : IsTail second) :
    pieces (first :: second :: rest) =
      .scalar (Char.ofNat ((first.toNat - 0xC0) * 64 + (second.toNat - 0x80))) ::
        pieces rest := by
  have inRange : (0x80 : UInt8) ≤ second ∧ second ≤ 0xBF :=
    ⟨UInt8.le_iff_toNat_le.2 tail.1, UInt8.le_iff_toNat_le.2 tail.2⟩
  have announced := lead?_of_two lower upper
  have taken : continuations 1 0x80 0xBF ([second] ++ rest) = [second] := by
    simp [continuations, inRange]
  simpa only [spell, List.foldl_cons, List.foldl_nil, List.cons_append, List.nil_append] using
    pieces_of_full [second] announced taken rfl

/-- A lead byte and two tails are one piece. -/
theorem pieces_three {first second third : UInt8} {rest : Bytes} (lower : 0xE0 ≤ first.toNat)
    (upper : first.toNat ≤ 0xEF) (secondTail : IsTail second) (thirdTail : IsTail third)
    (shortest : first.toNat = 0xE0 → 0xA0 ≤ second.toNat)
    (noSurrogate : first.toNat = 0xED → second.toNat ≤ 0x9F) :
    pieces (first :: second :: third :: rest) =
      .scalar (Char.ofNat (((first.toNat - 0xE0) * 64 + (second.toNat - 0x80)) * 64
        + (third.toNat - 0x80))) :: pieces rest := by
  obtain ⟨lead, announced, count, payload, lowOk, highOk⟩ :=
    lead?_of_three lower upper secondTail shortest noSurrogate
  have inRange : (0x80 : UInt8) ≤ third ∧ third ≤ 0xBF :=
    ⟨UInt8.le_iff_toNat_le.2 thirdTail.1, UInt8.le_iff_toNat_le.2 thirdTail.2⟩
  have taken : continuations lead.count lead.low lead.high ([second, third] ++ rest) =
      [second, third] := by
    simp [count, continuations, lowOk, highOk, inRange]
  rw [← payload]
  simpa only [spell, List.foldl_cons, List.foldl_nil, List.cons_append, List.nil_append] using
    pieces_of_full [second, third] announced taken count.symm

/-- A lead byte and three tails are one piece. -/
theorem pieces_four {first second third fourth : UInt8} {rest : Bytes}
    (lower : 0xF0 ≤ first.toNat) (upper : first.toNat ≤ 0xF4) (secondTail : IsTail second)
    (thirdTail : IsTail third) (fourthTail : IsTail fourth)
    (shortest : first.toNat = 0xF0 → 0x90 ≤ second.toNat)
    (inUnicode : first.toNat = 0xF4 → second.toNat ≤ 0x8F) :
    pieces (first :: second :: third :: fourth :: rest) =
      .scalar (Char.ofNat ((((first.toNat - 0xF0) * 64 + (second.toNat - 0x80)) * 64
        + (third.toNat - 0x80)) * 64 + (fourth.toNat - 0x80))) :: pieces rest := by
  obtain ⟨lead, announced, count, payload, lowOk, highOk⟩ :=
    lead?_of_four lower upper secondTail shortest inUnicode
  have thirdRange : (0x80 : UInt8) ≤ third ∧ third ≤ 0xBF :=
    ⟨UInt8.le_iff_toNat_le.2 thirdTail.1, UInt8.le_iff_toNat_le.2 thirdTail.2⟩
  have fourthRange : (0x80 : UInt8) ≤ fourth ∧ fourth ≤ 0xBF :=
    ⟨UInt8.le_iff_toNat_le.2 fourthTail.1, UInt8.le_iff_toNat_le.2 fourthTail.2⟩
  have taken : continuations lead.count lead.low lead.high ([second, third, fourth] ++ rest) =
      [second, third, fourth] := by
    simp [count, continuations, lowOk, highOk, thirdRange, fourthRange]
  rw [← payload]
  simpa only [spell, List.foldl_cons, List.foldl_nil, List.cons_append, List.nil_append] using
    pieces_of_full [second, third, fourth] announced taken count.symm

theorem toNat_ofNat_byte {value : Nat} (small : value < 256) :
    (UInt8.ofNat value).toNat = value :=
  UInt8.toNat_ofNat_of_lt' small

/-- The bytes of a scalar value are one piece, whatever follows them. -/
theorem pieces_encodeScalar_append (scalar : Char) (rest : Bytes) :
    pieces (encodeScalar scalar.toNat ++ rest) = .scalar scalar :: pieces rest := by
  have valid : scalar.toNat.isValidChar := scalar.valid
  generalize known : scalar.toNat = value at valid
  have back : Char.ofNat value = scalar := by
    rw [← known]
    exact Char.ofNat_toNat scalar
  simp only [Nat.isValidChar] at valid
  -- One case for each number of bytes; put together again, their payloads give the value.
  by_cases one : value < 0x80
  · have small : (UInt8.ofNat value) < 0x80 := by
      rw [UInt8.lt_iff_toNat_lt, toNat_ofNat_byte (by omega)]
      exact one
    rw [encodeScalar, if_pos one, List.singleton_append, pieces_cons]
    simp only [front, frontTail, if_pos small, List.drop_zero]
    rw [toNat_ofNat_byte (by omega), back]
  · by_cases two : value < 0x800
    · have first := toNat_ofNat_byte (show 0xC0 + value / 64 < 256 by omega)
      have second := toNat_ofNat_byte (show 0x80 + value % 64 < 256 by omega)
      rw [encodeScalar, if_neg one, if_pos two, List.cons_append, List.singleton_append,
        pieces_two (by omega) (by omega) ⟨by omega, by omega⟩, first, second]
      have spelled : (0xC0 + value / 64 - 0xC0) * 64 + (0x80 + value % 64 - 0x80) = value := by
        omega
      rw [spelled, back]
    · by_cases three : value < 0x10000
      · have first := toNat_ofNat_byte (show 0xE0 + value / 4096 < 256 by omega)
        have second := toNat_ofNat_byte (show 0x80 + value / 64 % 64 < 256 by omega)
        have third := toNat_ofNat_byte (show 0x80 + value % 64 < 256 by omega)
        rw [encodeScalar, if_neg one, if_neg two, if_pos three, List.cons_append,
          List.cons_append, List.singleton_append,
          pieces_three (by omega) (by omega) ⟨by omega, by omega⟩ ⟨by omega, by omega⟩
            (by omega) (by omega), first, second, third]
        have spelled : ((0xE0 + value / 4096 - 0xE0) * 64 + (0x80 + value / 64 % 64 - 0x80)) * 64
            + (0x80 + value % 64 - 0x80) = value := by
          omega
        rw [spelled, back]
      · have first := toNat_ofNat_byte (show 0xF0 + value / 262144 < 256 by omega)
        have second := toNat_ofNat_byte (show 0x80 + value / 4096 % 64 < 256 by omega)
        have third := toNat_ofNat_byte (show 0x80 + value / 64 % 64 < 256 by omega)
        have fourth := toNat_ofNat_byte (show 0x80 + value % 64 < 256 by omega)
        rw [encodeScalar, if_neg one, if_neg two, if_neg three, List.cons_append,
          List.cons_append, List.cons_append, List.singleton_append,
          pieces_four (by omega) (by omega) ⟨by omega, by omega⟩ ⟨by omega, by omega⟩
            ⟨by omega, by omega⟩ (by omega) (by omega), first, second, third, fourth]
        have spelled : (((0xF0 + value / 262144 - 0xF0) * 64
            + (0x80 + value / 4096 % 64 - 0x80)) * 64 + (0x80 + value / 64 % 64 - 0x80)) * 64
            + (0x80 + value % 64 - 0x80) = value := by
          omega
        rw [spelled, back]

/-- What a scalar is encoded as is read back as it, whatever follows. -/
theorem decodeEscaped_encodeScalar_append (scalar : Char) (rest : Bytes) :
    decodeEscaped (encodeScalar scalar.toNat ++ rest) = .char scalar :: decodeEscaped rest := by
  rw [decodeEscaped, pieces_encodeScalar_append]
  rfl

/-- Text without stray bytes is made of scalar values. -/
theorem exists_scalars {text : Text} (valid : text.hasRaw = false) :
    ∃ scalars : List Char, text = scalars.map .char := by
  induction text with
  | nil => exact ⟨[], rfl⟩
  | cons glyph rest ih =>
      simp only [Text.hasRaw, List.any_cons, Bool.or_eq_false_iff] at valid ih
      obtain ⟨scalars, rfl⟩ := ih valid.2
      cases glyph with
      | raw offset => cases valid.1
      | char scalar => exact ⟨scalar :: scalars, rfl⟩

/-- The bytes of scalar values are cut into one piece for each. -/
theorem pieces_encode (scalars : List Char) :
    pieces (encode (scalars.map .char)) = scalars.map .scalar := by
  induction scalars with
  | nil => rfl
  | cons scalar rest ih =>
      have whole := pieces_encodeScalar_append scalar (encode (rest.map .char))
      rw [ih] at whole
      exact whole

/-- Text without stray bytes survives encoding. -/
theorem decodeEscaped_encode {text : Text} (valid : text.hasRaw = false) :
    decodeEscaped (encode text) = text := by
  obtain ⟨scalars, rfl⟩ := exists_scalars valid
  rw [decodeEscaped, pieces_encode, List.flatMap_map]
  exact List.map_eq_flatMap.symm

/-- Text without stray bytes survives encoding, also where stray bytes would be replaced. -/
theorem decodeReplaced_encode {text : Text} (valid : text.hasRaw = false) :
    decodeReplaced (encode text) = text := by
  obtain ⟨scalars, rfl⟩ := exists_scalars valid
  rw [decodeReplaced, pieces_encode, List.map_map]
  rfl

/-- Pieces that are all scalars decode without an error. -/
theorem decodePieces_scalars (scalars : List Char) (position : Nat) :
    decodePieces position (scalars.map .scalar) = .ok (scalars.map .char) := by
  induction scalars generalizing position with
  | nil => rfl
  | cons scalar rest ih => rw [List.map_cons, decodePieces, ih, List.map_cons]

/-- Text without stray bytes is what its bytes are decoded to strictly. -/
theorem decode_encode {text : Text} (valid : text.hasRaw = false) :
    decode (encode text) = .ok text := by
  obtain ⟨scalars, rfl⟩ := exists_scalars valid
  rw [decode, pieces_encode, decodePieces_scalars]

/-- What the strict decoder gives has no stray byte. -/
theorem hasRaw_of_decodePieces {position : Nat} {pieces : List Piece} {text : Text}
    (decoded : decodePieces position pieces = .ok text) : text.hasRaw = false := by
  induction pieces generalizing position text with
  | nil =>
      obtain rfl := Except.ok.inj decoded
      rfl
  | cons piece rest ih =>
      cases piece with
      | broken bytes flaw => cases decoded
      | scalar value =>
          rw [decodePieces] at decoded
          split at decoded
          · rename_i later read
            obtain rfl := Except.ok.inj decoded
            simpa [Text.hasRaw, Glyph.isRaw] using ih read
          · cases decoded

/-- What was decoded strictly holds no stray bytes. -/
theorem hasRaw_of_decode {bytes : Bytes} {text : Text} (decoded : decode bytes = .ok text) :
    text.hasRaw = false :=
  hasRaw_of_decodePieces decoded

/-- What is encoded strictly holds no stray bytes. -/
theorem hasRaw_of_encodeValid {text : Text} {bytes : Bytes}
    (encoded : encodeValid text = .ok bytes) : text.hasRaw = false := by
  rw [encodeValid] at encoded
  split at encoded
  · rename_i nothing
    have whole := List.takeWhile_append_dropWhile (p := fun glyph => !glyph.isRaw) (l := text)
    have clean := List.all_takeWhile (p := fun glyph => !glyph.isRaw) (l := text)
    rw [nothing, List.append_nil] at whole
    rw [whole, List.all_eq_true] at clean
    rw [Text.hasRaw, List.any_eq_false]
    exact fun glyph member => by simpa using clean glyph member
  · cases encoded

/-- Without stray bytes, strict encoding is encoding. -/
theorem encodeValid_of_noRaw {text : Text} (noRaw : text.hasRaw = false) :
    encodeValid text = .ok (encode text) := by
  rw [Text.hasRaw, List.any_eq_false] at noRaw
  have whole : (text ++ []).dropWhile (fun glyph : Glyph => !glyph.isRaw) = [] :=
    List.dropWhile_append_of_pos fun glyph member => by simpa using noRaw glyph member
  rw [List.append_nil] at whole
  rw [encodeValid, whole]

/-- A byte of an encoded glyph is beyond ASCII, or the glyph is that ASCII character. -/
theorem high_of_mem_encodeGlyph {glyph : Glyph} {byte : UInt8}
    (member : byte ∈ encodeGlyph glyph) :
    0x80 ≤ byte.toNat ∨ (glyph = .char (Char.ofNat byte.toNat) ∧ encodeGlyph glyph = [byte]) := by
  cases glyph with
  | raw offset =>
      obtain rfl := List.mem_singleton.1 member
      rw [toNat_ofNat_byte (by omega)]
      exact Or.inl (by omega)
  | char scalar =>
      simp only [encodeGlyph, encodeScalar] at member ⊢
      have bound : scalar.toNat < 0x110000 := by
        have valid : scalar.toNat.isValidChar := scalar.valid
        simp only [Nat.isValidChar] at valid
        omega
      split at member
      · rename_i small
        obtain rfl := List.mem_singleton.1 member
        rw [toNat_ofNat_byte (by omega), if_pos small, Char.ofNat_toNat]
        exact Or.inr ⟨rfl, rfl⟩
      · refine Or.inl ?_
        split at member
        all_goals try split at member
        all_goals
          simp only [List.mem_cons, List.not_mem_nil, or_false] at member
          rcases member with rfl | rfl | rfl | rfl <;> rw [toNat_ofNat_byte (by omega)] <;> omega

/-- A byte below `0x80` stands in an encoded text exactly where its character stands. -/
theorem mem_encode_ascii {byte : UInt8} (ascii : byte.toNat < 0x80) (text : Text) :
    byte ∈ encode text ↔ Glyph.char (Char.ofNat byte.toNat) ∈ text := by
  constructor
  · intro member
    obtain ⟨glyph, inText, inGlyph⟩ := List.mem_flatMap.1 member
    rcases high_of_mem_encodeGlyph inGlyph with high | ⟨rfl, -⟩
    · omega
    · exact inText
  · intro member
    refine List.mem_flatMap.2 ⟨_, member, ?_⟩
    rw [encodeGlyph, toNat_char_ofNat (Or.inl (by omega)), encodeScalar, if_pos ascii,
      UInt8.ofNat_toNat]
    exact List.mem_singleton_self byte

/-- A text that is not empty has bytes. -/
theorem encode_ne_nil {text : Text} (nonempty : text ≠ []) : encode text ≠ [] := by
  cases text with
  | nil => exact absurd rfl nonempty
  | cons glyph rest =>
      intro empty
      have first := (List.append_eq_nil_iff.1 empty).1
      cases glyph with
      | raw offset => cases first
      | char scalar =>
          simp only [encodeGlyph, encodeScalar] at first
          split at first
          · cases first
          · split at first
            · cases first
            · split at first <;> cases first

/-- A text whose encoding is plain ASCII is what this decodes to. -/
theorem eq_decodeEscaped_of_encode {text : Text} {bytes : Bytes} (shown : encode text = bytes)
    (ascii : ∀ byte ∈ bytes, byte.toNat < 0x80) : text = decodeEscaped bytes := by
  have valid : text.hasRaw = false := by
    rw [Text.hasRaw, List.any_eq_false]
    intro glyph member
    cases glyph with
    | char scalar => simp [Glyph.isRaw]
    | raw offset =>
        have stray : UInt8.ofNat (0x80 + offset.val) ∈ encode text :=
          List.mem_flatMap.2 ⟨_, member, List.mem_singleton_self _⟩
        have low := ascii _ (shown ▸ stray)
        rw [toNat_ofNat_byte (by omega)] at low
        omega
  rw [← shown, decodeEscaped_encode valid]

/-- No continuation goes on over an ASCII byte. -/
theorem continuations_append_ascii {count : Nat} {low high byte : UInt8} {bytes rest : Bytes}
    (lowBound : 0x80 ≤ low.toNat) (ascii : byte.toNat < 0x80) :
    continuations count low high (bytes ++ byte :: rest) = continuations count low high bytes := by
  induction count generalizing low high bytes with
  | zero => simp [continuations]
  | succ count ih =>
      cases bytes with
      | nil =>
          have outside : ¬ (low ≤ byte ∧ byte ≤ high) := by
            rw [UInt8.le_iff_toNat_le]
            omega
          simp [continuations, outside]
      | cons first bytes =>
          have start : 0x80 ≤ (0x80 : UInt8).toNat := by decide
          simp only [List.cons_append, continuations, ih start]

/-- The first piece of some bytes is the same whatever stands behind an ASCII byte. -/
theorem escaped_front_append_ascii (first : UInt8) (bytes rest : Bytes) {byte : UInt8}
    (ascii : byte.toNat < 0x80) :
    (front first (bytes ++ byte :: rest)).escaped = (front first bytes).escaped ∧
      frontTail first (bytes ++ byte :: rest) = frontTail first bytes := by
  by_cases small : first < 0x80
  · simp [front, frontTail, small]
  · cases announced : lead? first with
    | none => simp [front, frontTail, small, announced]
    | some lead =>
        obtain ⟨lowBound, -, -⟩ := lead?_cases announced
        simp only [front, frontTail, if_neg small, announced,
          continuations_append_ascii lowBound ascii, and_true]
        split
        · rfl
        · split <;> split <;> rfl

/-- Text is cut before an ASCII character: both sides are decoded by themselves. -/
theorem decodeEscaped_append_ascii (bytes : Bytes) {byte : UInt8} {rest : Bytes}
    (ascii : byte.toNat < 0x80) :
    decodeEscaped (bytes ++ byte :: rest) =
      decodeEscaped bytes ++ decodeEscaped (byte :: rest) := by
  induction size : bytes.length using Nat.strongRecOn generalizing bytes with
  | ind length ih =>
      cases bytes with
      | nil => rfl
      | cons first bytes =>
          obtain ⟨sameGlyphs, sameTail⟩ := escaped_front_append_ascii first bytes rest ascii
          have within : frontTail first bytes ≤ bytes.length := by
            simp only [frontTail]
            split
            · exact Nat.zero_le _
            · split
              · exact Nat.zero_le _
              · exact (continuations_isPrefix ..).length_le
          have shorter : (bytes.drop (frontTail first bytes)).length < length := by
            simp only [List.length_cons, List.length_drop] at size ⊢
            omega
          have later := ih _ shorter _ rfl
          simp only [decodeEscaped] at later ⊢
          rw [List.cons_append, pieces_cons, pieces_cons, List.flatMap_cons, List.flatMap_cons,
            sameGlyphs, sameTail, List.drop_append_of_le_length within, later, List.append_assoc]

end Utf8

end PatchShelf
