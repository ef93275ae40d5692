/-
Module: PatchShelf.Proofs.ShelfOrder
Purpose: The order in which shelves are shown.
Main exports:
  Glyph.code_injective, Text.precedes_iff, Shelves.rank, Shelves.notAfter_iff,
  Shelves.pairwise_inOrder, Shelves.exists_last_inOrder, Shelves.eq_inOrder_iff,
  Shelves.inOrder_congr
-/
import Mathlib.Data.List.Lex
import Mathlib.Data.List.Nodup
import Mathlib.Data.Prod.Lex
import Mathlib.Data.Int.Order.Basic
import PatchShelf.Shelf

/-!
Entries are compared by their time of modification, and those of one moment by the code points
of their keys.  A glyph has its code point to itself, so no two entries of a dictionary come out
equal, and the order of a listing does not depend on the order in which the records came.
-/

namespace PatchShelf

/-- No character has the code point of a stray byte. -/
theorem Glyph.code_injective : Function.Injective Glyph.code := by
  intro one two same
  have apart (scalar : Char) (offset : Fin 128) : scalar.toNat ≠ 0xDC80 + offset.val := by
    have valid : scalar.toNat < 0xD800 ∨ 0xDFFF < scalar.toNat ∧ scalar.toNat < 0x110000 :=
      scalar.valid
    omega
  cases one with
  | char scalar =>
      cases two with
      | char other => exact congrArg Glyph.char (Char.toNat_inj.1 same)
      | raw offset => exact absurd same (apart scalar offset)
  | raw offset =>
      cases two with
      | char other => exact absurd same.symm (apart other offset)
      | raw other =>
          have values : offset.val = other.val := Nat.add_left_cancel same
          exact congrArg Glyph.raw (Fin.ext values)

namespace Text

/-- A text is told by its codes. -/
theorem codes_injective : Function.Injective codes :=
  List.map_injective_iff.2 Glyph.code_injective

theorem codesPrecede_iff (left right : List Nat) :
    codesPrecede left right = true ↔ ¬ right < left := by
  fun_induction codesPrecede left right with
  | case1 right => simp
  | case2 first rest => simp
  | case3 left leftRest right rightRest less =>
      refine iff_of_true rfl fun behind => ?_
      rcases List.cons_lt_cons_iff.1 behind with more | ⟨same, -⟩
      · omega
      · omega
  | case4 left leftRest right rightRest notLess more => simp [List.cons_lt_cons_iff, more]
  | case5 left leftRest right rightRest notLess notMore ih =>
      obtain rfl : left = right := by omega
      simp [ih]

/-- Texts are ordered as their codes are, by the first that differ. -/
theorem precedes_iff (left right : Text) : left.precedes right = true ↔ left.codes ≤ right.codes :=
  (codesPrecede_iff left.codes right.codes).trans not_lt

end Text

namespace Shelves

/-- What an entry is ranked by: the time of modification, then the code points of the key. -/
def rank (entry : Text × ShelfRecord) : Int ×ₗ List Nat :=
  toLex (entry.2.modified.micros, entry.1.codes)

/-- The entries are ordered as their ranks are, by time and then by name. -/
theorem notAfter_iff (left right : Text × ShelfRecord) :
    notAfter left right = true ↔ rank left ≤ rank right := by
  rw [rank, rank, Prod.Lex.toLex_le_toLex, ← Text.precedes_iff, notAfter]
  by_cases earlier : left.2.modified.micros < right.2.modified.micros
  · simp [earlier]
  · by_cases later : right.2.modified.micros < left.2.modified.micros
    · simp [later]
      omega
    · have same : left.2.modified.micros = right.2.modified.micros := by omega
      simp [same]

theorem key_eq_of_rank {one two : Text × ShelfRecord} (same : rank one = rank two) :
    one.1 = two.1 :=
  Text.codes_injective (congrArg (fun ranked => (ofLex ranked).2) same)

/-- In order, no rank is behind a greater one. -/
theorem pairwise_inOrder (records : Shelves) :
    records.inOrder.Pairwise fun left right => rank left ≤ rank right := by
  have sorted : records.inOrder.Pairwise fun left right => notAfter left right = true := by
    apply List.pairwise_mergeSort
    · intro one two three first second
      rw [notAfter_iff] at first second ⊢
      exact first.trans second
    · intro one two
      rw [Bool.or_eq_true, notAfter_iff, notAfter_iff]
      exact le_total _ _
  exact sorted.imp fun holds => (notAfter_iff _ _).1 holds

theorem mem_inOrder_iff (records : Shelves) (key : Text) (record : ShelfRecord) :
    (key, record) ∈ records.inOrder ↔ records.get? key = some record :=
  List.mem_mergeSort.trans ⟨Dictionary.get?_of_mem, Dictionary.mem_of_get?⟩

/-- The last of the entries is behind all others. -/
theorem exists_last_inOrder {records : Shelves} (filled : records.pairs ≠ []) :
    ∃ before key record, records.inOrder = before ++ [(key, record)] ∧
      records.get? key = some record ∧
      ∀ other shown, records.get? other = some shown → other ≠ key →
        (other, shown) ∈ before ∧ rank (other, shown) < rank (key, record) := by
  have present : records.inOrder ≠ [] := by
    intro none
    have same := List.mergeSort_perm records.pairs notAfter
    rw [inOrder] at none
    exact filled (none ▸ same).symm.eq_nil
  have parts := List.dropLast_append_getLast present
  generalize records.inOrder.dropLast = before, records.inOrder.getLast present = last at parts
  obtain ⟨key, record⟩ := last
  have known : records.get? key = some record := by
    rw [← mem_inOrder_iff, ← parts]
    simp
  refine ⟨before, key, record, parts.symm, known, fun other shown there apart => ?_⟩
  have member : (other, shown) ∈ before := by
    rw [← mem_inOrder_iff, ← parts, List.mem_append, List.mem_singleton] at there
    exact there.resolve_right fun same => apart (congrArg Prod.fst same)
  have sorted := pairwise_inOrder records
  rw [← parts, List.pairwise_append] at sorted
  have behind := sorted.2.2 _ member _ (List.mem_singleton_self _)
  exact ⟨member, lt_of_le_of_ne behind fun same => apart (key_eq_of_rank same)⟩

/-! ### One order for one dictionary -/

/-- In order, the ranks ascend strictly, because the names differ. -/
theorem pairwise_lt_inOrder (records : Shelves) :
    records.inOrder.Pairwise fun left right => rank left < rank right := by
  have perm := List.mergeSort_perm records.pairs notAfter
  have apart : records.inOrder.Pairwise fun left right => left.1 ≠ right.1 :=
    List.pairwise_map.1 ((perm.map Prod.fst).nodup_iff.2 records.distinct)
  exact (pairwise_inOrder records).imp₂
    (fun _ _ behind other => lt_of_le_of_ne behind fun same => other (key_eq_of_rank same)) apart

/-- No other arrangement of the entries has each of them below the next. -/
theorem eq_inOrder_iff (records : Shelves) (entries : List (Text × ShelfRecord)) :
    entries = records.inOrder ↔
      entries.Perm records.pairs ∧ entries.Pairwise fun left right => rank left < rank right := by
  have perm : records.inOrder.Perm records.pairs := List.mergeSort_perm _ _
  constructor
  · rintro rfl
    exact ⟨perm, pairwise_lt_inOrder records⟩
  · rintro ⟨same, sorted⟩
    exact List.Perm.eq_of_pairwise (fun _ _ _ _ below above => absurd below above.asymm) sorted
      (pairwise_lt_inOrder records) (same.trans perm.symm)

/-- The order in which the records came does not show. -/
theorem inOrder_congr {one two : Shelves} (same : ∀ key, one.get? key = two.get? key) :
    one.inOrder = two.inOrder := by
  have member (entry : Text × ShelfRecord) : entry ∈ one.pairs ↔ entry ∈ two.pairs := by
    have sides (records : Shelves) :
        entry ∈ records.pairs ↔ records.get? entry.1 = some entry.2 :=
      ⟨Dictionary.get?_of_mem, Dictionary.mem_of_get?⟩
    rw [sides, sides, same]
  have distinct (records : Shelves) : records.pairs.Nodup :=
    records.distinct.of_map Prod.fst
  have perm : one.pairs.Perm two.pairs :=
    (List.perm_ext_iff_of_nodup (distinct one) (distinct two)).2 member
  exact (eq_inOrder_iff two _).2
    ⟨(List.mergeSort_perm _ _).trans perm, pairwise_lt_inOrder one⟩

end Shelves

end PatchShelf
