/-
Module: PatchShelf.Proofs.Effect
Purpose: Running operations step by step, and operations that only look.
Main exports:
  exists_of_bind_eq_ok, Effect.run_bind, Effect.run_bind_induction,
  Effect.exists_of_run_bind_ok, Effect.run_ensuring,
  Effect.run_forEach, Effect.forEach_induction, Effect.Reads, Effect.Reads.bind,
  Effect.Reads.run_bind, Effect.StopsOnly, Effect.StopsOnly.bind, Effect.Silent, Effect.Silent.bind
-/
import PatchShelf.Effect

/-!
A sequence of operations runs its first one and goes on in the world that this
leaves.  An operation that only reads leaves the world as it is and no trail, so
what follows it runs as if it stood alone.  The reasons for which a sequence stops are
those of its parts.
-/

namespace PatchShelf

instance decidableEqExcept {ε α : Type} [DecidableEq ε] [DecidableEq α] :
    DecidableEq (Except ε α)
  | .ok one, .ok two => decidable_of_iff (one = two) (Except.ok.injEq one two ▸ Iff.rfl)
  | .error one, .error two => decidable_of_iff (one = two) (Except.error.injEq one two ▸ Iff.rfl)
  | .ok _, .error _ => isFalse nofun
  | .error _, .ok _ => isFalse nofun

/-- A sequence of checks that passes has a first check that does. -/
theorem exists_of_bind_eq_ok {ε α β : Type} {first : Except ε α} {next : α → Except ε β} {value : β}
    (passed : first >>= next = .ok value) :
    ∃ result, first = .ok result ∧ next result = .ok value := by
  cases first with
  | error reason => cases passed
  | ok result => exact ⟨result, rfl, passed⟩

@[simp] theorem mapError_ok {ε δ α : Type} (step : ε → δ) (value : α) :
    (Except.ok value).mapError step = .ok value := rfl

@[simp] theorem mapError_error {ε δ α : Type} (step : ε → δ) (fault : ε) :
    (Except.error fault : Except ε α).mapError step = .error (step fault) := rfl

/-- Telling a failure differently makes no success. -/
theorem mapError_eq_ok_iff {ε δ α : Type} {checked : Except ε α} {step : ε → δ} {value : α} :
    checked.mapError step = .ok value ↔ checked = .ok value := by
  cases checked <;> simp

namespace Effect

variable {ε σ α β : Type}

theorem pure_bind (result : α) (next : α → Effect ε σ β) :
    (pure result >>= next) = next result := rfl

/-- Of three operations in a row, it does not matter which two are taken together. -/
theorem bind_assoc {γ : Type} (action : Effect ε σ α) (next : α → Effect ε σ β)
    (last : β → Effect ε σ γ) :
    (action >>= next) >>= last = action >>= fun result => next result >>= last := by
  refine Effect.ext fun audience world => ?_
  show chain (chain (action.perform audience world) fun result => (next result).perform audience)
      (fun result => (last result).perform audience) =
    chain (action.perform audience world) fun result middle =>
      chain ((next result).perform audience middle) fun result => (last result).perform audience
  generalize action.perform audience world = first
  obtain ⟨ended, middle, early⟩ := first
  cases ended with
  | error reason => rfl
  | ok result =>
      simp only [chain]
      generalize (next result).perform audience middle = second
      obtain ⟨ended, after, late⟩ := second
      cases ended with
      | error reason => rfl
      | ok result => simp only [List.append_assoc]

/-- A sequence stops where its first part stops, and else goes on in the world that it leaves; the
trails are put together. -/
theorem run_bind (action : Effect ε σ α) (next : α → Effect ε σ β) (world : σ) :
    (action >>= next).run world =
      match (action.run world).result with
      | .error reason => ⟨.error reason, (action.run world).world, (action.run world).events⟩
      | .ok result =>
        ⟨((next result).run (action.run world).world).result,
          ((next result).run (action.run world).world).world,
          (action.run world).events ++ ((next result).run (action.run world).world).events⟩ := by
  cases ended : action.run world with
  | mk result after events =>
      cases result with
      | error reason => exact run_bind_error ended
      | ok result => exact run_bind_ok ended

/-- What holds of a run and of the run behind it, and then of both together, holds of a
sequence, whether or not it stops early. -/
theorem runBefore_bind_induction {audience : Audience ε} {motive : σ → List ε → σ → Prop}
    (inTurn : ∀ {start middle finish early late}, motive start early middle →
      motive middle late finish → motive start (early ++ late) finish)
    {action : Effect ε σ α} {next : α → Effect ε σ β} {world : σ}
    (first : motive world (action.runBefore audience world).events
      (action.runBefore audience world).world)
    (later : ∀ result, (action.runBefore audience world).result = .ok result →
      motive (action.runBefore audience world).world
        ((next result).runBefore audience (action.runBefore audience world).world).events
        ((next result).runBefore audience (action.runBefore audience world).world).world) :
    motive world ((action >>= next).runBefore audience world).events
      ((action >>= next).runBefore audience world).world := by
  rw [runBefore_bind, chain]
  cases ended : (action.runBefore audience world).result with
  | error reason => exact first
  | ok result => exact inTurn first (later result ended)

/-- The same for runs before a willing audience. -/
theorem run_bind_induction {motive : σ → List ε → σ → Prop}
    (inTurn : ∀ {start middle finish early late}, motive start early middle →
      motive middle late finish → motive start (early ++ late) finish)
    {action : Effect ε σ α} {next : α → Effect ε σ β} {world : σ}
    (first : motive world (action.run world).events (action.run world).world)
    (later : ∀ result, (action.run world).result = .ok result →
      motive (action.run world).world ((next result).run (action.run world).world).events
        ((next result).run (action.run world).world).world) :
    motive world ((action >>= next).run world).events ((action >>= next).run world).world :=
  runBefore_bind_induction inTurn first later

/-- An operation with its result put in other words. -/
theorem run_bind_pure (action : Effect ε σ α) (step : α → β) (world : σ) :
    (action >>= fun result => pure (step result)).run world =
      ⟨(action.run world).result.map step, (action.run world).world,
        (action.run world).events⟩ := by
  rw [run_bind]
  cases (action.run world).result with
  | error reason => rfl
  | ok result => simp [Except.map]

/-- A sequence that succeeds has a first step that does, and goes on where this ends. -/
theorem exists_of_run_bind_ok {action : Effect ε σ α} {next : α → Effect ε σ β} {world : σ}
    {value : β} (succeeded : ((action >>= next).run world).result = .ok value) :
    ∃ first, (action.run world).result = .ok first ∧
      ((next first).run (action.run world).world).result = .ok value ∧
      (action >>= next).run world =
        ⟨.ok value, ((next first).run (action.run world).world).world,
          (action.run world).events ++ ((next first).run (action.run world).world).events⟩ := by
  rw [run_bind] at succeeded ⊢
  cases ended : (action.run world).result with
  | error reason =>
      rw [ended] at succeeded
      cases succeeded
  | ok first =>
      rw [ended] at succeeded
      simp only at succeeded ⊢
      exact ⟨first, rfl, succeeded, by rw [succeeded]⟩

/-- An attempt ends well and tells how it went. -/
@[simp] theorem run_attempt (action : Effect ε σ α) (world : σ) :
    (attempt action).run world =
      ⟨.ok (action.run world).result, (action.run world).world, (action.run world).events⟩ := rfl

/-- A failure leaves the world and no trail. -/
@[simp] theorem run_fail (failure : Failure) (world : σ) :
    (fail failure : Effect ε σ α).run world = ⟨.error (.failure failure), world, []⟩ := rfl

/-- An event is all of the trail. -/
@[simp] theorem run_emit (event : ε) (world : σ) :
    (emit event : Effect ε σ Unit).run world = ⟨.ok (), world, [event]⟩ := rfl

/-- An event that is taken is all of the trail before an audience, too. -/
theorem runBefore_emit_of_taken {audience : Audience ε} {event : ε}
    (taken : audience event = none) (world : σ) :
    (emit event : Effect ε σ Unit).runBefore audience world = ⟨.ok (), world, [event]⟩ := by
  rw [runBefore_of_takes, run_emit]
  intro other member
  rw [run_emit, List.mem_singleton] at member
  rw [member, taken]

/-- An event that is refused does not happen, and stops the run. -/
theorem runBefore_emit_of_refused {audience : Audience ε} {event : ε} {fault : Fault}
    (refused : audience event = some fault) (world : σ) :
    (emit event : Effect ε σ Unit).runBefore audience world =
      ⟨.error (.fault fault), world, []⟩ := by
  rw [runBefore, emit]
  simp only [refused]

/-- Whoever the audience is, events that are to happen are all that happens. -/
theorem mem_of_mem_runBefore_emitAll {audience : Audience ε} {events : List ε} {world : σ}
    {event : ε} (member : event ∈ ((emitAll events).runBefore audience world).events) :
    event ∈ events := by
  induction events generalizing world with
  | nil => cases member
  | cons first rest ih =>
      have opened : emitAll (first :: rest) = (emit first : Effect ε σ Unit) >>= fun _ =>
        emitAll rest := rfl
      rw [opened, runBefore_bind] at member
      cases heard : audience first with
      | some fault =>
          rw [runBefore_emit_of_refused heard] at member
          cases member
      | none =>
          rw [runBefore_emit_of_taken heard] at member
          rcases List.mem_cons.1 member with rfl | later
          · exact List.mem_cons_self
          · exact List.mem_cons_of_mem _ (ih later)

/-- What a look at the files answered is handed on, and a refusal of it stops with its fault. -/
@[simp] theorem run_ofAccess (result : Except Fault α) (world : σ) :
    (ofAccess result : Effect ε σ α).run world = ⟨result.mapError .fault, world, []⟩ := by
  cases result <;> rfl

/-- What a check gave is handed on, and a refusal of it stops with its message. -/
@[simp] theorem run_ofChecked (result : Except Failure α) (world : σ) :
    (ofChecked result : Effect ε σ α).run world = ⟨result.mapError .failure, world, []⟩ := by
  cases result <;> rfl

/-- A last step that goes through hands the result of the operation on. -/
theorem run_ensuring {action : Effect ε σ α} {last : Effect ε σ Unit} {world : σ}
    (goes : (last.run (action.run world).world).result = .ok ()) :
    (ensuring action last).run world =
      ⟨(action.run world).result, (last.run (action.run world).world).world,
        (action.run world).events ++ (last.run (action.run world).world).events⟩ := by
  show (attempt action >>= fun ended => last >>= fun _ => ofExcept ended).run world = _
  rw [run_bind, run_attempt]
  simp only
  rw [run_bind, goes]
  simp only
  cases (action.run world).result with
  | error reason => simp [ofExcept]
  | ok result => simp [ofExcept, give, run]

/-- A loop over steps that all go through goes through, and each step shows in its trail. -/
theorem run_forEach {members : List α} {step : α → Effect ε σ Unit}
    (goes : ∀ member ∈ members, ∀ world, ((step member).run world).result = .ok ()) (world : σ) :
    ((forEach members step).run world).result = .ok () ∧
      ∀ member ∈ members, ∃ before, ∀ event ∈ ((step member).run before).events,
        event ∈ ((forEach members step).run world).events := by
  induction members generalizing world with
  | nil => exact ⟨rfl, nofun⟩
  | cons first rest ih =>
      have here := goes first List.mem_cons_self world
      obtain ⟨later, shown⟩ := ih
        (fun member inside => goes member (List.mem_cons_of_mem _ inside))
        ((step first).run world).world
      show ((step first >>= fun _ => forEach rest step).run world).result = .ok () ∧
        ∀ member ∈ first :: rest, ∃ before, ∀ event ∈ ((step member).run before).events,
          event ∈ ((step first >>= fun _ => forEach rest step).run world).events
      rw [run_bind, here]
      refine ⟨later, fun member inside => ?_⟩
      rcases List.mem_cons.1 inside with rfl | behind
      · exact ⟨world, fun event => List.mem_append_left _⟩
      · obtain ⟨before, all⟩ := shown member behind
        exact ⟨before, fun event occurs => List.mem_append_right _ (all event occurs)⟩

/-- What holds of doing nothing, and of two operations in turn if of each, holds of a loop if of
each of its steps. -/
theorem forEach_induction {motive : Effect ε σ Unit → Prop} (nothing : motive (pure ()))
    (inTurn : ∀ first next, motive first → motive next → motive (first >>= fun _ => next))
    {members : List α} {step : α → Effect ε σ Unit}
    (each : ∀ member ∈ members, motive (step member)) : motive (forEach members step) := by
  induction members with
  | nil => exact nothing
  | cons member rest ih =>
      exact inTurn _ _ (each member List.mem_cons_self) <|
        ih fun other later => each other (List.mem_cons_of_mem _ later)

/-- A loop ends with its last step. -/
theorem forEach_concat (members : List α) (last : α) (step : α → Effect ε σ Unit) :
    forEach (members ++ [last]) step = forEach members step >>= fun _ => step last := by
  induction members with
  | nil =>
      refine Effect.ext fun audience world => ?_
      show chain ((step last).perform audience world) (fun _ => (give ()).perform audience) =
        (step last).perform audience world
      obtain ⟨ended, after, events⟩ := (step last).perform audience world
      cases ended with
      | error reason => rfl
      | ok done => simp only [chain, give, List.append_nil]
  | cons first rest ih =>
      show (step first >>= fun _ => forEach (rest ++ [last]) step) =
        (step first >>= fun _ => forEach rest step) >>= fun _ => step last
      rw [ih, bind_assoc]

/-- The operation leaves the world as it is, and no trail. -/
def Reads (action : Effect ε σ α) : Prop :=
  ∀ world, (action.run world).world = world ∧ (action.run world).events = []

namespace Reads

/-- Of a run that only reads, the result is all. -/
theorem run_eq {action : Effect ε σ α} (reads : Reads action) (world : σ) :
    action.run world = ⟨(action.run world).result, world, []⟩ := by
  obtain ⟨same, silent⟩ := reads world
  cases ended : action.run world with
  | mk result after events =>
      rw [ended] at same silent
      simp only at same silent
      rw [same, silent]

theorem pure (result : α) : Reads (Pure.pure result : Effect ε σ α) :=
  fun _ => ⟨rfl, rfl⟩

theorem stop (reason : Stop) : Reads (Effect.stop reason : Effect ε σ α) :=
  fun _ => ⟨rfl, rfl⟩

theorem fail (failure : Failure) : Reads (Effect.fail failure : Effect ε σ α) :=
  stop (.failure failure)

theorem look : Reads (Effect.look : Effect ε σ σ) :=
  fun _ => ⟨rfl, rfl⟩

theorem ofAccess (result : Except Fault α) : Reads (Effect.ofAccess result : Effect ε σ α) := by
  intro world
  rw [run_ofAccess]
  exact ⟨rfl, rfl⟩

theorem ofChecked (result : Except Failure α) :
    Reads (Effect.ofChecked result : Effect ε σ α) := by
  intro world
  rw [run_ofChecked]
  exact ⟨rfl, rfl⟩

/-- A sequence of operations that only read only reads. -/
theorem bind {action : Effect ε σ α} {next : α → Effect ε σ β} (first : Reads action)
    (second : ∀ result, Reads (next result)) : Reads (action >>= next) := by
  intro world
  refine run_bind_induction (motive := fun start trail finish => finish = start ∧ trail = [])
    ?_ (first world) fun result _ => second result _
  rintro start _ _ _ _ ⟨rfl, rfl⟩ ⟨rfl, rfl⟩
  exact ⟨rfl, rfl⟩

/-- Behind an operation that only reads, the next one starts in the same world. -/
theorem run_bind {action : Effect ε σ α} (reads : Reads action) (next : α → Effect ε σ β)
    (world : σ) :
    (action >>= next).run world =
      match (action.run world).result with
      | .error reason => ⟨.error reason, world, []⟩
      | .ok result => (next result).run world := by
  rw [Effect.run_bind, reads.run_eq world]
  cases (action.run world).result with
  | error reason => rfl
  | ok result => simp

/-- What only reads and ends well can be left out in front. -/
theorem run_bind_of_ok {action : Effect ε σ α} (reads : Reads action) {next : α → Effect ε σ β}
    {world : σ} {first : α} (ended : (action.run world).result = .ok first) :
    (action >>= next).run world = (next first).run world := by
  rw [reads.run_bind, ended]

/-- A sequence that succeeds goes on as if what it first reads had been known. -/
theorem exists_of_bind_ok {action : Effect ε σ α} (reads : Reads action)
    {next : α → Effect ε σ β} {world : σ} {value : β}
    (succeeded : ((action >>= next).run world).result = .ok value) :
    ∃ first, (action.run world).result = .ok first ∧
      ((next first).run world).result = .ok value := by
  obtain ⟨first, ended, -, -⟩ := exists_of_run_bind_ok succeeded
  exact ⟨first, ended, by rw [← reads.run_bind_of_ok ended, succeeded]⟩

end Reads

/-- Run in this world, the operation stops for allowed reasons only. -/
def StopsOnly (allowed : Stop → Prop) (action : Effect ε σ α) (world : σ) : Prop :=
  ∀ reason, (action.run world).result = .error reason → allowed reason

namespace StopsOnly

variable {allowed more : Stop → Prop} {world : σ}

theorem weaken {action : Effect ε σ α} (stops : StopsOnly allowed action world)
    (implies : ∀ reason, allowed reason → more reason) : StopsOnly more action world :=
  fun reason stopped => implies reason (stops reason stopped)

theorem pure (result : α) : StopsOnly allowed (Pure.pure result : Effect ε σ α) world :=
  nofun

theorem emitAll (events : List ε) :
    StopsOnly allowed (Effect.emitAll events : Effect ε σ Unit) world := by
  intro reason stopped
  rw [run_emitAll] at stopped
  cases stopped

theorem emit (event : ε) : StopsOnly allowed (Effect.emit event : Effect ε σ Unit) world :=
  nofun

theorem stop {reason : Stop} (holds : allowed reason) :
    StopsOnly allowed (Effect.stop reason : Effect ε σ α) world := by
  intro other stopped
  obtain rfl := Except.error.inj stopped
  exact holds

theorem fail {failure : Failure} (holds : allowed (.failure failure)) :
    StopsOnly allowed (Effect.fail failure : Effect ε σ α) world :=
  stop holds

theorem ofAccess {result : Except Fault α}
    (holds : ∀ fault, result = .error fault → allowed (.fault fault)) :
    StopsOnly allowed (Effect.ofAccess result : Effect ε σ α) world := by
  cases result with
  | ok value => exact nofun
  | error fault => exact stop (holds fault rfl)

theorem ofChecked {result : Except Failure α}
    (holds : ∀ failure, result = .error failure → allowed (.failure failure)) :
    StopsOnly allowed (Effect.ofChecked result : Effect ε σ α) world := by
  cases result with
  | ok value => exact nofun
  | error failure => exact fail (holds failure rfl)

/-- A sequence stops where its first operation does, or behind it. -/
theorem bind {action : Effect ε σ α} {next : α → Effect ε σ β}
    (first : StopsOnly allowed action world)
    (later : ∀ result, (action.run world).result = .ok result →
      StopsOnly allowed (next result) (action.run world).world) :
    StopsOnly allowed (action >>= next) world := by
  intro reason stopped
  rw [Effect.run_bind] at stopped
  cases ended : (action.run world).result with
  | error why =>
      rw [ended] at stopped
      obtain rfl := Except.error.inj stopped
      exact first why ended
  | ok result =>
      rw [ended] at stopped
      exact later result ended reason stopped

/-- Behind an attempt, what it came to is known. -/
theorem bind_attempt {action : Effect ε σ α} {next : Except Stop α → Effect ε σ β}
    (later : ∀ ended, (action.run world).result = ended →
      StopsOnly allowed (next ended) (action.run world).world) :
    StopsOnly allowed (attempt action >>= next) world := by
  refine bind nofun fun ended attempted => ?_
  rw [run_attempt] at attempted ⊢
  exact later ended (Except.ok.inj attempted)

/-- Events change nothing, so what follows them starts in the same world. -/
theorem bind_emitAll {events : List ε} {next : Unit → Effect ε σ β}
    (later : StopsOnly allowed (next ()) world) :
    StopsOnly allowed (Effect.emitAll events >>= next) world := by
  refine bind (emitAll events) fun result _ => ?_
  rw [run_emitAll]
  exact later

theorem bind_reads {action : Effect ε σ α} {next : α → Effect ε σ β} (reads : Reads action)
    (first : StopsOnly allowed action world)
    (later : ∀ result, (action.run world).result = .ok result →
      StopsOnly allowed (next result) world) :
    StopsOnly allowed (action >>= next) world := by
  refine bind first fun result ended => ?_
  rw [(reads world).1]
  exact later result ended

end StopsOnly

/-- The operation leaves no trail. -/
def Silent (action : Effect ε σ α) : Prop :=
  ∀ world, (action.run world).events = []

namespace Silent

theorem ofReads {action : Effect ε σ α} (reads : Reads action) : Silent action :=
  fun world => (reads world).2

theorem change (step : σ → σ) : Silent (Effect.change step : Effect ε σ Unit) :=
  fun _ => rfl

theorem attempt {action : Effect ε σ α} (silent : Silent action) : Silent (Effect.attempt action) :=
  silent

/-- Nothing happens that an audience could refuse. -/
theorem runBefore_eq {action : Effect ε σ α} (silent : Silent action) (audience : Audience ε)
    (world : σ) : action.runBefore audience world = action.run world :=
  runBefore_of_takes fun event member => by
    rw [silent world] at member
    cases member

theorem bind {action : Effect ε σ α} {next : α → Effect ε σ β} (first : Silent action)
    (second : ∀ result, Silent (next result)) : Silent (action >>= next) := by
  intro world
  refine run_bind_induction (motive := fun _ trail _ => trail = []) ?_ (first world)
    fun result _ => second result _
  rintro _ _ _ _ _ rfl rfl
  rfl

end Silent

/-- Behind an operation whose events are all taken, the next one runs before the audience. -/
theorem runBefore_bind_of_takes {audience : Audience ε} {action : Effect ε σ α} {world : σ}
    (takes : audience.Takes (action.run world).events) (next : α → Effect ε σ β) :
    (action >>= next).runBefore audience world =
      chain (action.run world) fun result => (next result).runBefore audience := by
  rw [runBefore_bind, runBefore_of_takes takes]

/-- Behind an operation that only reads, the next one starts in the same world. -/
theorem Reads.runBefore_bind_of_ok {action : Effect ε σ α} (reads : Reads action)
    {next : α → Effect ε σ β} {world : σ} {first : α}
    (ended : (action.run world).result = .ok first) (audience : Audience ε) :
    (action >>= next).runBefore audience world = (next first).runBefore audience world := by
  rw [runBefore_bind, (Silent.ofReads reads).runBefore_eq, reads.run_eq, ended]
  rfl

end Effect

end PatchShelf
