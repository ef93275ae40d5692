/-
Module: PatchShelf.Proofs.Commands.PrintedShelves
Purpose: A listing prints every record that the store gives.
Main exports:
  Commands.printed_of_listShelves, Commands.exists_stop_of_listShelves,
  Commands.printed_of_shelves
-/
import PatchShelf.Commands
import PatchShelf.Proofs.Dealings
import PatchShelf.Proofs.DiffStat
import PatchShelf.Proofs.ShelfOrder

/-!
A listing goes through the records in their order and prints each with its summary.  The
program that summarizes may be missing or fail: as long as its arguments can be passed at
all, the listing goes on, so no record is left out.
-/

namespace PatchShelf

namespace Commands

variable {σ : Type} {backend : Backend σ}

/-- Each record of a listing has a summary, whatever came before. -/
def Summarized (backend : Backend σ) (records : Shelves) : Prop :=
  ∀ key record, records.get? key = some record → ∀ world,
    ∃ summary, ((backend.summarize record.patchPath).run world).result = .ok summary

theorem run_printSummary (summary : Text) (session : Session σ) :
    ((printSummary summary).run session).result = .ok () := by
  rw [printSummary]
  split
  · rfl
  · rfl

/-- An entry is printed, and its summary does not get in the way. -/
theorem run_printEntry {entry : Text × ShelfRecord} {now : Instant} {statistics : Bool}
    (summarized : ∀ world, ∃ summary,
      ((backend.summarize entry.2.patchPath).run world).result = .ok summary)
    (session : Session σ) :
    ((printEntry backend now statistics entry).run session).result = .ok () ∧
      .printed (Listing.entryText entry.1 entry.2 now) ∈
        ((printEntry backend now statistics entry).run session).events := by
  have first : ((Session.print (Listing.entryText entry.1 entry.2 now) :
      Session.Operation σ Unit).run session) =
        ⟨.ok (), session, [.printed (Listing.entryText entry.1 entry.2 now)]⟩ := rfl
  rw [printEntry, Effect.run_bind, first]
  refine ⟨?_, List.mem_append_left _ List.mem_cons_self⟩
  cases statistics with
  | false => rfl
  | true =>
      obtain ⟨summary, given⟩ := summarized session.world
      have asked : ((Session.askSummary backend entry.2.patchPath).run session).result =
          .ok summary := given
      simp only [if_true]
      rw [Effect.run_bind, asked]
      simp only
      rw [Effect.run_bind, run_printSummary]
      rfl

theorem result_inOrder {root : Text} {records : Shelves} {session : Session σ}
    (listed : ((backend.store.list root).run session.world).result = .ok records) :
    ((inOrder backend root).run session).result = .ok records.inOrder := by
  have asked : ((Session.askList backend root).run session).result = .ok records := listed
  rw [inOrder, Effect.run_bind, asked]
  rfl

/-- A listing ends well and prints every record. -/
theorem printed_of_listShelves {root : Text} {records : Shelves} {session : Session σ}
    (listed : ((backend.store.list root).run session.world).result = .ok records)
    (summarized : Summarized backend records) (now : Instant) (statistics : Bool) :
    let outcome := (listShelves backend root now statistics).run session
    outcome.result = .ok () ∧ ∀ key record, records.get? key = some record →
      .printed (Listing.entryText key record now) ∈ outcome.events := by
  intro outcome
  have ordered := result_inOrder listed
  have step : ∀ entry ∈ records.inOrder, ∀ world : Session σ,
      ((printEntry backend now statistics entry).run world).result = .ok () ∧
        .printed (Listing.entryText entry.1 entry.2 now) ∈
          ((printEntry backend now statistics entry).run world).events := by
    intro entry member world
    exact run_printEntry (summarized entry.1 entry.2 ((records.mem_inOrder_iff _ _).1 member)) world
  obtain ⟨ended, shown⟩ := Effect.run_forEach (fun entry member world =>
    (step entry member world).1) ((inOrder backend root).run session).world
  simp only [outcome]
  rw [listShelves, Effect.run_bind, ordered]
  refine ⟨ended, fun key record known => ?_⟩
  have member := (records.mem_inOrder_iff key record).2 known
  obtain ⟨before, all⟩ := shown _ member
  exact List.mem_append_right _ (all _ (step _ member before).2)

/-- A listing with a record in it stops where no summary can be had. -/
theorem exists_stop_of_listShelves {root key : Text} {records : Shelves} {record : ShelfRecord}
    {session : Session σ}
    (listed : ((backend.store.list root).run session.world).result = .ok records)
    (known : records.get? key = some record)
    (stops : ∀ path world, ∃ reason, ((backend.summarize path).run world).result = .error reason)
    (now : Instant) :
    ∃ reason, ((listShelves backend root now true).run session).result = .error reason := by
  have ordered := result_inOrder listed
  have member := (records.mem_inOrder_iff key record).2 known
  obtain ⟨first, rest, entries⟩ := List.exists_cons_of_ne_nil (List.ne_nil_of_mem member)
  obtain ⟨reason, stopped⟩ := stops first.2.patchPath
    ((inOrder backend root).run session).world.world
  have unprinted : ((printEntry backend now true first).run
      ((inOrder backend root).run session).world).result = .error reason := by
    have asked : ((Session.askSummary backend first.2.patchPath).run
        ((inOrder backend root).run session).world).result = .error reason := stopped
    show ((Session.print _ >>= fun _ => Session.askSummary backend first.2.patchPath >>=
      fun summary => printSummary summary >>= fun _ => Session.print []).run _).result = _
    rw [Effect.run_bind]
    simp only [Session.print, Effect.run_emit]
    rw [Effect.run_bind, asked]
  refine ⟨reason, ?_⟩
  rw [listShelves, Effect.run_bind, ordered, entries]
  show ((printEntry backend now true first >>= fun _ => Effect.forEach rest
    (printEntry backend now true)).run _).result = _
  rw [Effect.run_bind, unprinted]

/-- The command that lists shelves is a listing with summaries. -/
theorem run_shelves {surroundings : Surroundings} {root : Text}
    (located : surroundings.root = .ok root) (options : Options) (session : Session σ) :
    (shelves backend surroundings [] options).run session =
      (listShelves backend root surroundings.now true).run session := by
  rw [shelves, located]
  rfl

/-- The command that lists shelves prints every record that the store gives. -/
theorem printed_of_shelves {surroundings : Surroundings} {root : Text} {records : Shelves}
    {session : Session σ} (located : surroundings.root = .ok root)
    (listed : ((backend.store.list root).run session.world).result = .ok records)
    (summarized : Summarized backend records) (options : Options) :
    let outcome := (shelves backend surroundings [] options).run session
    outcome.result = .ok () ∧ ∀ key record, records.get? key = some record →
      .printed (Listing.entryText key record surroundings.now) ∈ outcome.events := by
  rw [run_shelves located]
  exact printed_of_listShelves listed summarized surroundings.now true

end Commands

end PatchShelf
