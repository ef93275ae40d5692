/-
Module: PatchShelf.Proofs.Commands.ListedAges
Purpose: The ages in a listing, from its first shelf to its last.
Main exports:
  Commands.Prints, Commands.exists_prints_forEach, Shelves.pairwise_ages,
  Commands.ages_descend
-/
import PatchShelf.Proofs.Commands.Conduct
import PatchShelf.Proofs.Commands.QuietListing
import PatchShelf.Proofs.Listing

/-!
A listing prints the lines of one entry after the other, and with statistics more lines behind
each.  It may stop where a patch cannot be summarized, and has then printed the first entries
only.  The entries go from the oldest to the youngest, so from line to line no age goes up.
-/

namespace PatchShelf

/-- From the first of some records to the last, no age goes up. -/
theorem Shelves.pairwise_ages (records : Shelves) (now : Instant) :
    (records.inOrder.map fun entry => Listing.ageInMinutes now entry.2.modified).Pairwise
      (· ≥ ·) := by
  rw [List.pairwise_map]
  apply (pairwise_inOrder records).imp
  intro left right behind
  apply Listing.ageInMinutes_le
  rcases Prod.Lex.toLex_le_toLex.1 behind with before | ⟨same, -⟩
  · exact before.le
  · exact same.le

namespace Commands

open Session (Operation printedOf)

variable {σ : Type} {backend : Backend σ}

/-- What a listing of some entries prints: the lines of each, and behind them lines about its
patch. -/
inductive Prints (backend : Backend σ) (now : Instant) :
    List (Text × ShelfRecord) → List Text → Prop where
  | nothing : Prints backend now [] []
  | entry {first : Text × ShelfRecord} {rest : List (Text × ShelfRecord)}
      {remarks more : List Text}
      (about : ∀ text ∈ remarks, SummaryLine backend first.2.patchPath text)
      (others : Prints backend now rest more) :
      Prints backend now (first :: rest)
        (Listing.entryText first.1 first.2 now :: (remarks ++ more))

/-- An entry is printed, and lines about its patch. -/
theorem exists_printed_printEntry (backend : Backend σ) (now : Instant) (statistics : Bool)
    (entry : Text × ShelfRecord) (session : Session σ) :
    ∃ remarks, (∀ text ∈ remarks, SummaryLine backend entry.2.patchPath text) ∧
      printedOf ((printEntry backend now statistics entry).run session).events =
        Listing.entryText entry.1 entry.2 now :: remarks := by
  have printed : (Session.print (Listing.entryText entry.1 entry.2 now) :
      Operation σ Unit).run session =
        ⟨.ok (), session, [.printed (Listing.entryText entry.1 entry.2 now)]⟩ := rfl
  rw [printEntry, Effect.run_bind_ok printed, Session.printedOf_append]
  cases statistics with
  | false => exact ⟨[], List.forall_mem_nil _, rfl⟩
  | true =>
      have about := (besides_printStatistics backend entry.2.patchPath session).printed
      exact ⟨_, about, rfl⟩

/-- A loop over entries prints the first of them, and all if it goes through. -/
theorem exists_prints_forEach (backend : Backend σ) (now : Instant) (statistics : Bool)
    (entries : List (Text × ShelfRecord)) (session : Session σ) :
    let outcome := (Effect.forEach entries (printEntry backend now statistics)).run session
    ∃ shown, Prints backend now shown (printedOf outcome.events) ∧ shown <+: entries ∧
      (outcome.result = .ok () → shown = entries) := by
  induction entries generalizing session with
  | nil => exact ⟨[], .nothing, List.nil_prefix, fun _ => rfl⟩
  | cons first rest ih =>
      obtain ⟨remarks, about, printed⟩ :=
        exists_printed_printEntry backend now statistics first session
      show ∃ shown, Prints backend now shown
          (printedOf ((printEntry backend now statistics first >>= fun _ =>
            Effect.forEach rest (printEntry backend now statistics)).run session).events) ∧
        shown <+: first :: rest ∧
          (((printEntry backend now statistics first >>= fun _ =>
            Effect.forEach rest (printEntry backend now statistics)).run session).result =
              .ok () → shown = first :: rest)
      rw [Effect.run_bind]
      cases ended : ((printEntry backend now statistics first).run session).result with
      | error reason =>
          refine ⟨[first], ?_, ?_, nofun⟩
          · have only : Prints backend now [first]
                (Listing.entryText first.1 first.2 now :: (remarks ++ [])) :=
              .entry about .nothing
            rw [List.append_nil, ← printed] at only
            exact only
          · exact List.prefix_append [first] rest
      | ok done =>
          obtain ⟨shown, prints, part, whole⟩ :=
            ih ((printEntry backend now statistics first).run session).world
          refine ⟨first :: shown, ?_, ?_, ?_⟩
          · rw [Session.printedOf_append, printed]
            exact .entry about prints
          · exact (List.prefix_cons_inj first).2 part
          · intro ends
            rw [whole ends]

/-- To have the records in order shows what asking for them does, the log aside. -/
theorem filterMap_inOrder {α : Type} {shows : Event → Option α}
    (noLog : ∀ record, shows (.activity (.logged record)) = none) (backend : Backend σ)
    (root : Text) (session : Session σ) :
    ((inOrder backend root).run session).events.filterMap shows =
      ((Session.askList backend root).run session).events.filterMap shows := by
  rw [inOrder, Effect.run_bind]
  cases ((Session.askList backend root).run session).result with
  | error reason => rfl
  | ok records =>
      rw [List.filterMap_append]
      apply List.append_right_eq_self.2
      exact List.filterMap_cons_none (noLog _)

/-- Nothing is printed before the first entry. -/
theorem printedOf_inOrder (backend : Backend σ) (root : Text) (session : Session σ) :
    printedOf ((inOrder backend root).run session).events = [] :=
  (filterMap_inOrder (fun _ => rfl) backend root session).trans
    (Session.printedOf_admitted session.context _)

/-- A listing prints what the loop over the records in their order prints. -/
theorem run_listShelves_of_ok {root : Text} {records : Shelves} {session : Session σ}
    (listed : ((backend.store.list root).run session.world).result = .ok records)
    (now : Instant) (statistics : Bool) :
    let outcome := (listShelves backend root now statistics).run session
    let shown := (Effect.forEach records.inOrder (printEntry backend now statistics)).run
      ((inOrder backend root).run session).world
    outcome.result = shown.result ∧ printedOf outcome.events = printedOf shown.events := by
  intro outcome shown
  simp only [outcome]
  rw [listShelves, Effect.run_bind, result_inOrder listed]
  constructor
  · rfl
  · rw [Session.printedOf_append, printedOf_inOrder, List.nil_append]

/-- A listing goes through the shelves from the oldest on, and their ages, negative for what lies
in the future, never go up from one entry to the next. -/
theorem ages_descend (backend : Backend σ) (root : Text) (now : Instant) (statistics : Bool)
    (session : Session σ) :
    let outcome := (listShelves backend root now statistics).run session
    ∃ shown, Prints backend now shown (printedOf outcome.events) ∧
      (shown.map fun entry => Listing.ageInMinutes now entry.2.modified).Pairwise (· ≥ ·) ∧
      match ((backend.store.list root).run session.world).result with
      | .error reason => outcome.result = .error reason ∧ shown = []
      | .ok records => shown <+: records.inOrder ∧
          (outcome.result = .ok () → shown = records.inOrder) ∧
          (statistics = false ∨ Summarized backend records → outcome.result = .ok ()) := by
  intro outcome
  cases listed : ((backend.store.list root).run session.world).result with
  | error reason =>
      have asked : ((Session.askList backend root).run session).result = .error reason := listed
      have ordered : ((inOrder backend root).run session).result = .error reason := by
        rw [inOrder, Effect.run_bind, asked]
      have stopped : outcome = ⟨.error reason, ((inOrder backend root).run session).world,
          ((inOrder backend root).run session).events⟩ := by
        simp only [outcome]
        rw [listShelves, Effect.run_bind, ordered]
      rw [stopped]
      refine ⟨[], ?_, .nil, rfl, rfl⟩
      rw [printedOf_inOrder]
      exact .nothing
  | ok records =>
      obtain ⟨ends, printed⟩ := run_listShelves_of_ok listed now statistics
      obtain ⟨shown, prints, part, whole⟩ := exists_prints_forEach backend now statistics
        records.inOrder ((inOrder backend root).run session).world
      refine ⟨shown, ?_, ?_, part, ?_, ?_⟩
      · rw [printed]
        exact prints
      · exact (records.pairwise_ages now).sublist (part.sublist.map _)
      · rw [ends]
        exact whole
      · rintro (rfl | summarized)
        · rw [ends, run_printEntries]
        · exact (printed_of_listShelves listed summarized now statistics).1

end Commands

end PatchShelf
