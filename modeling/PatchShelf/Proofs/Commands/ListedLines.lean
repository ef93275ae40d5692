/-
Module: PatchShelf.Proofs.Commands.ListedLines
Purpose: The lines that a quiet listing puts out.
Main exports:
  Report.outLines_admitted, Commands.run_quietList, Commands.lines_of_quietList
-/
import PatchShelf.Proofs.Commands.ListedAges

/-!
Without statistics a listing puts out the entries and nothing else.  An entry begins with its
header, and no other line is as long as a header, so the headers tell where the entries begin.
What follows is the beginning of a message, which takes as many lines as it holds: two lines for
each shelf come out only if no message goes on after the end of a line.
-/

namespace PatchShelf

/-- While no progress is reported, the work of a store puts nothing out. -/
theorem Report.outLines_admitted {context : Context} (silent : context.notify = false)
    (trail : List Activity) :
    (trail.filterMap context.admit?).filterMap Report.outLine? = [] := by
  apply List.filterMap_eq_nil_iff.2
  intro event member
  obtain ⟨activity, -, admitted⟩ := List.mem_filterMap.1 member
  cases activity with
  | notified shown => simp [Context.admit?, silent] at admitted
  | logged record =>
      obtain rfl := Option.some.inj admitted
      rfl
  | ran call =>
      obtain rfl := Option.some.inj admitted
      rfl

section Doubled

variable {α β : Type} {step : α → List β} {members : List α}

theorem double_le_length_flatMap (many : ∀ member ∈ members, 2 ≤ (step member).length) :
    2 * members.length ≤ (members.flatMap step).length := by
  induction members with
  | nil => exact Nat.zero_le _
  | cons first rest ih =>
      have here := many first List.mem_cons_self
      have later := ih fun member inside => many member (List.mem_cons_of_mem _ inside)
      rw [List.flatMap_cons, List.length_append, List.length_cons]
      omega

/-- Where each member gives two things or more, they are two for each only if each gives two. -/
theorem length_flatMap_eq_double_iff (many : ∀ member ∈ members, 2 ≤ (step member).length) :
    (members.flatMap step).length = 2 * members.length ↔
      ∀ member ∈ members, (step member).length = 2 := by
  induction members with
  | nil => exact iff_of_true rfl (List.forall_mem_nil _)
  | cons first rest ih =>
      have here := many first List.mem_cons_self
      have later : ∀ member ∈ rest, 2 ≤ (step member).length :=
        fun member inside => many member (List.mem_cons_of_mem _ inside)
      have least := double_le_length_flatMap later
      rw [List.forall_mem_cons, ← ih later, List.flatMap_cons, List.length_append,
        List.length_cons]
      omega

end Doubled

namespace Commands

open Session (Operation)

variable {σ : Type} {backend : Backend σ}

theorem outLines_inOrder (backend : Backend σ) (root : Text) {session : Session σ}
    (silent : session.context.notify = false) :
    ((inOrder backend root).run session).events.filterMap Report.outLine? = [] := by
  rw [filterMap_inOrder fun _ => rfl]
  exact Report.outLines_admitted silent _

/-- While no progress is reported, a listing without statistics puts out the entries in their
order, and nothing else. -/
theorem run_silentListing {root : Text} {records : Shelves} {session : Session σ}
    (silent : session.context.notify = false)
    (listed : ((backend.store.list root).run session.world).result = .ok records)
    (now : Instant) :
    let outcome := (listShelves backend root now false).run session
    outcome.result = .ok () ∧
      outcome.events.filterMap Report.outLine? =
        records.inOrder.map fun entry => Listing.entryText entry.1 entry.2 now := by
  intro outcome
  simp only [outcome]
  rw [listShelves, Effect.run_bind, result_inOrder listed]
  simp only [run_printEntries]
  constructor
  · trivial
  · rw [List.filterMap_append, outLines_inOrder backend root silent, List.filterMap_map]
    exact congrFun List.filterMap_eq_map records.inOrder

theorem run_quietList {surroundings : Surroundings} {options : Options} {session : Session σ}
    {root : Text} {records : Shelves} (only : options.listOnly = true)
    (quiet : options.quiet = true) (located : surroundings.root = .ok root)
    (listed : ((backend.store.list root).run session.world).result = .ok records) :
    let outcome := (Command.shelve.run backend surroundings [] options).run session
    outcome.result = .ok () ∧
      outcome.events.filterMap Report.outLine? =
        records.inOrder.map fun entry =>
          Listing.entryText entry.1 entry.2 surroundings.now := by
  intro outcome
  let silent : Session σ := ⟨{ session.context with notify := false }, session.world⟩
  have silenced : (Session.silence : Operation σ Unit).run session = ⟨.ok (), silent, []⟩ := rfl
  have goes : outcome = (listShelves backend root surroundings.now false).run silent := by
    simp only [outcome]
    rw [Command.run, shelve, if_pos quiet, Effect.run_bind_ok silenced, located, only, quiet]
    rfl
  rw [goes]
  have unnotified : silent.context.notify = false := rfl
  exact run_silentListing unnotified listed surroundings.now

/-- Where no key holds the end of a line, a quiet listing puts out a header for each shelf, and
behind it the lines of what is shown of the message.  Only headers are longer than what is shown
of a message.  There are two lines for each shelf exactly if each message stays on one line. -/
theorem lines_of_quietList {surroundings : Surroundings} {options : Options} {session : Session σ}
    {root : Text} {records : Shelves} (only : options.listOnly = true)
    (quiet : options.quiet = true) (located : surroundings.root = .ok root)
    (listed : ((backend.store.list root).run session.world).result = .ok records)
    (unbroken : ∀ key record, records.get? key = some record → Text.Unbroken key) :
    let outcome := (Command.shelve.run backend surroundings [] options).run session
    let lines := (Report.ofLines (outcome.events.filterMap Report.outLine?)).splitLines
    let header (entry : Text × ShelfRecord) := Listing.header entry.1 entry.2 surroundings.now
    outcome.result = .ok () ∧
      lines = records.inOrder.flatMap (fun entry =>
        header entry :: (Listing.messageLine entry.2 ++ [Glyph.char '\n']).splitLines) ∧
      lines.filter (fun line => Listing.messageLength + 1 < line.length) =
        records.inOrder.map header ∧
      (lines.length = 2 * records.inOrder.length ↔
        ∀ key record, records.get? key = some record → Listing.OnOneLine record) := by
  intro outcome lines header
  obtain ⟨ends, shown⟩ : outcome.result = .ok () ∧ outcome.events.filterMap Report.outLine? = _ :=
    run_quietList only quiet located listed
  have entries : lines = records.inOrder.flatMap fun entry =>
      header entry :: (Listing.messageLine entry.2 ++ [Glyph.char '\n']).splitLines := by
    simp only [lines, shown]
    rw [show Report.ofLines = Text.ofLines from rfl, Text.splitLines_ofLines, List.flatMap_map]
    apply List.flatMap_congr
    intro entry member
    have known := (records.mem_inOrder_iff entry.1 entry.2).1 member
    exact Listing.splitLines_entryText (unbroken _ _ known) entry.2 surroundings.now
  -- A header is followed by at least one line, so two lines for each entry in all mean one each.
  have many : ∀ entry ∈ records.inOrder,
      2 ≤ (header entry ::
        (Listing.messageLine entry.2 ++ [Glyph.char '\n']).splitLines).length := by
    intro entry _
    exact Nat.succ_le_succ (List.length_pos_iff.2 (Text.splitLines_feed_ne_nil _))
  refine ⟨ends, entries, ?_, ?_⟩
  · rw [entries, List.filter_flatMap, List.map_eq_flatMap]
    apply List.flatMap_congr
    intro entry member
    rw [List.filter_cons_of_pos (by simpa using Listing.lt_length_header _ _ _)]
    have short : (Listing.messageLine entry.2 ++ [Glyph.char '\n']).splitLines.filter
        (fun line => Listing.messageLength + 1 < line.length) = [] := by
      apply List.filter_eq_nil_iff.2
      intro piece among
      have bound := (Text.length_le_of_mem_splitLines_feed among).trans
        (Listing.length_messageLine_le entry.2)
      simpa using bound
    rw [short]
  · rw [entries, length_flatMap_eq_double_iff many]
    constructor
    · intro double key record known
      have two := double (key, record) ((records.mem_inOrder_iff key record).2 known)
      exact (Listing.onOneLine_iff record).2 (Nat.succ.inj two)
    · intro single entry member
      have known := (records.mem_inOrder_iff entry.1 entry.2).1 member
      exact congrArg Nat.succ ((Listing.onOneLine_iff _).1 (single _ _ known))

/-- One shelf, with a message of two lines. -/
def brokenRecords : Shelves :=
  .ofList [("n.patch", ⟨"n", "/wc/.svn/shelves/n.patch", .epoch, 3, "a\nb", by decide⟩)]

/-- The one shelf takes three lines, of which only the first is a header. -/
theorem lines_of_quietList_of_broken :
    let session : Session MemoryStore := ⟨⟨true, none⟩, ⟨brokenRecords, none, .epoch⟩⟩
    let options : Options := { listOnly := true, quiet := true }
    let outcome :=
      (Command.shelve.run (memoryBackend []) ⟨some "/wc", .epoch⟩ [] options).run session
    let lines := (Report.ofLines (outcome.events.filterMap Report.outLine?)).splitLines
    let header : Text := "n                                   0 mins old          3 bytes"
    outcome.result = .ok () ∧ lines = [header, " a", "b"] ∧
      lines.filter (fun line => Listing.messageLength + 1 < line.length) = [header] ∧
      lines.length ≠ 2 * brokenRecords.inOrder.length := by
  intro session options outcome lines header
  have only : options.listOnly = true := rfl
  have quiet : options.quiet = true := rfl
  have located : (⟨some "/wc", .epoch⟩ : Surroundings).root = .ok "/wc" := by decide
  have listed : (((memoryBackend []).store.list "/wc").run session.world).result =
      .ok brokenRecords := rfl
  have unbroken : ∀ key record, brokenRecords.get? key = some record → Text.Unbroken key := by
    intro key record there
    rw [(Prod.mk.inj (List.mem_singleton.1 (Dictionary.mem_of_get? there))).1]
    decide
  obtain ⟨ends, entries, headers, double⟩ :=
    lines_of_quietList only quiet located listed unbroken
  refine ⟨ends, entries.trans ?_, headers.trans ?_, ?_⟩
  · decide +kernel
  · decide +kernel
  · intro two
    have single := double.1 two "n.patch" _ rfl
    rw [Listing.onOneLine_iff] at single
    revert single
    decide +kernel

end Commands

end PatchShelf
