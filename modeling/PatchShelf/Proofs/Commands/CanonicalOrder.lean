/-
Module: PatchShelf.Proofs.Commands.CanonicalOrder
Purpose: The one order of some records, and the shelf that it ends with.
Main exports:
  Shelves.Unexceeded, Commands.result_youngest, Commands.ordered_and_youngest
-/
import PatchShelf.Proofs.Commands.QuietListing

/-!
Of all arrangements of some records exactly one goes up in rank from each record to the next,
and it does not depend on how the records were put together.  The youngest shelf is the one that
this arrangement ends with, so there is one as soon as there is a record.
-/

namespace PatchShelf

namespace Shelves

/-- The entry is that of a record, and no other one exceeds it. -/
structure Unexceeded (records : Shelves) (entry : Text × ShelfRecord) : Prop where
  known : records.get? entry.1 = some entry.2
  highest : ∀ key record, records.get? key = some record → ¬ rank entry < rank (key, record)

theorem Unexceeded.unique {records : Shelves} {one two : Text × ShelfRecord}
    (first : Unexceeded records one) (second : Unexceeded records two) : one = two := by
  have same : rank one = rank two :=
    le_antisymm (not_lt.1 (second.highest _ _ first.known))
      (not_lt.1 (first.highest _ _ second.known))
  have key := key_eq_of_rank same
  exact Prod.ext key (Option.some.inj (first.known.symm.trans (key ▸ second.known)))

/-- Records that are there end with an entry that none exceeds. -/
theorem exists_unexceeded {records : Shelves} {present : Text}
    (there : records.get? present ≠ none) :
    ∃ entry, Unexceeded records entry ∧
      lastName? records.inOrder = some (Shelf.nameOf entry.1) := by
  obtain ⟨found, first⟩ := Option.ne_none_iff_exists'.1 there
  obtain ⟨before, key, record, parts, known, below⟩ :=
    exists_last_inOrder (List.ne_nil_of_mem (Dictionary.mem_of_get? first))
  refine ⟨(key, record), ⟨known, fun other shown stands => ?_⟩, ?_⟩
  · by_cases same : other = key
    · subst same
      obtain rfl := Option.some.inj (known.symm.trans stands)
      exact lt_irrefl _
    · exact (below other shown stands same).2.asymm
  · simp [lastName?, parts]

theorem inOrder_of_empty {records : Shelves} (empty : ∀ key, records.get? key = none) :
    records.inOrder = [] := by
  refine List.eq_nil_iff_forall_not_mem.2 fun entry member => ?_
  rw [records.mem_inOrder_iff, empty] at member
  cases member

end Shelves

namespace Commands

open Shelves (Unexceeded rank)

variable {σ : Type} {backend : Backend σ}

theorem result_youngest {root : Text} {records : Shelves} {session : Session σ}
    (listed : ((backend.store.list root).run session.world).result = .ok records) :
    ((youngest backend root).run session).result =
      match Shelves.lastName? records.inOrder with
      | none => .error (.failure (.plain .noShelves))
      | some name => .ok name := by
  rw [youngest, Effect.run_bind, result_inOrder listed]
  simp only
  cases Shelves.lastName? records.inOrder with
  | none => rfl
  | some name => rfl

/-- The order of some records is their only arrangement in which every entry is ranked below the
next; records that came in another order are arranged alike.  The youngest shelf is missing
exactly if there is no record, and else it is the one that no other exceeds. -/
theorem ordered_and_youngest (records : Shelves) :
    (∀ entries, entries = records.inOrder ↔
      entries.Perm records.pairs ∧ entries.Pairwise fun left right => rank left < rank right) ∧
    (∀ others : Shelves, (∀ key, others.get? key = records.get? key) →
      others.inOrder = records.inOrder) ∧
    ∀ {σ : Type} (backend : Backend σ) (root : Text) (session : Session σ),
      ((backend.store.list root).run session.world).result = .ok records →
        let result := ((youngest backend root).run session).result
        (result = .error (.failure (.plain .noShelves)) ↔ ∀ key, records.get? key = none) ∧
        ((∃ key, records.get? key ≠ none) → ∃! entry, Unexceeded records entry) ∧
        ∀ entry, Unexceeded records entry → result = .ok (Shelf.nameOf entry.1) := by
  refine ⟨Shelves.eq_inOrder_iff records, fun others same => Shelves.inOrder_congr same, ?_⟩
  intro σ backend root session listed result
  have ends : ∀ key, records.get? key ≠ none → ∃ entry, Unexceeded records entry ∧
      result = .ok (Shelf.nameOf entry.1) := by
    intro key there
    obtain ⟨entry, highest, last⟩ := Shelves.exists_unexceeded there
    exact ⟨entry, highest, by simp only [result, result_youngest listed, last]⟩
  refine ⟨⟨fun failed key => ?_, fun empty => ?_⟩, ?_, fun entry highest => ?_⟩
  · refine Decidable.byContradiction fun there => ?_
    obtain ⟨entry, -, named⟩ := ends key there
    rw [failed] at named
    cases named
  · simp only [result, result_youngest listed, Shelves.inOrder_of_empty empty]
    rfl
  · rintro ⟨key, there⟩
    obtain ⟨entry, highest, -⟩ := ends key there
    exact ⟨entry, highest, fun other more => more.unique highest⟩
  · obtain ⟨other, more, named⟩ := ends entry.1 (by simp [highest.known])
    rw [highest.unique more, named]

/-- The record of a shelf of this name that was modified at the start of 1970. -/
def firstRecord (name : Text) (named : name.isBlank = false) : ShelfRecord :=
  ⟨name, "/wc/.svn/shelves/" ++ Shelf.keyOf name, .epoch, 1, [], named⟩

/-- Two shelves of one moment.  The name of the first begins that of the second, but its key comes
behind the other one, since a hyphen stands before a full stop. -/
def tiedRecords : Shelves :=
  .ofList [("fix.patch", firstRecord "fix" (by decide)),
    ("fix-more.patch", firstRecord "fix-more" (by decide))]

/-- Of the two shelves the one with the shorter name counts as the youngest. -/
theorem ordered_and_youngest_of_tied :
    let session : Session MemoryStore := ⟨⟨true, none⟩, ⟨tiedRecords, none, .epoch⟩⟩
    tiedRecords.inOrder = tiedRecords.pairs.reverse ∧
      ((youngest (memoryBackend []) "/wc").run session).result = .ok "fix" := by
  intro session
  obtain ⟨canonical, -, picks⟩ := ordered_and_youngest tiedRecords
  have listed : ((MemoryStore.store.list "/wc").run session.world).result = .ok tiedRecords := rfl
  have below : rank ("fix-more.patch", firstRecord "fix-more" (by decide)) <
      rank ("fix.patch", firstRecord "fix" (by decide)) := by
    refine lt_of_not_ge fun above => ?_
    have notAfter := (Shelves.notAfter_iff _ _).2 above
    revert notAfter
    decide
  refine ⟨((canonical _).2 ⟨List.reverse_perm _, ?_⟩).symm, ?_⟩
  · exact List.pairwise_pair.2 below
  · refine (picks (memoryBackend []) "/wc" session listed).2.2
      ("fix.patch", firstRecord "fix" (by decide)) ⟨rfl, fun key record known => ?_⟩
    have either : (key, record) ∈ tiedRecords.pairs := Dictionary.mem_of_get? known
    rcases List.mem_pair.1 either with same | same
    · rw [same]
      exact lt_irrefl _
    · rw [same]
      exact below.asymm

end Commands

end PatchShelf
