/-
Module: PatchShelf.Proofs.Store.Answers
Purpose: What any store answers to calls, one after another.
Main exports:
  ShelfStore.perform, ShelfStore.worldAfter, ShelfStore.FailsAsStore,
  MemoryStore.failsAsStore
-/
import PatchShelf.Session
import PatchShelf.Store.Memory
import PatchShelf.Proofs.Effect

/-!
The operations of a store are taken together as one: a call says which is meant, and the only
answer is a list of records.  A sequence of calls is answered in the world that the calls
before have left.
-/

namespace PatchShelf

namespace ShelfStore

variable {σ : Type}

/-- What a call does; only a list of records is an answer. -/
def perform (store : ShelfStore σ) : StoreCall → Effect Activity σ (Option Shelves)
  | .list root => do
    let records ← store.list root
    pure (some records)
  | .create request => do
    store.create request
    pure none
  | .delete name root dryRun => do
    store.delete name root dryRun
    pure none
  | .apply name root keepLocal dryRun => do
    store.apply name root keepLocal dryRun
    pure none

/-- The world that calls leave, one after another. -/
def worldAfter (store : ShelfStore σ) (calls : List StoreCall) (world : σ) : σ :=
  calls.foldl (fun world call => ((store.perform call).run world).world) world

/-- How a call ends behind others. -/
def answer (store : ShelfStore σ) (before : List StoreCall) (call : StoreCall) (world : σ) :
    Except Stop (Option Shelves) :=
  ((store.perform call).run (store.worldAfter before world)).result

/-- To perform the call that lists is to list; only the kind of its answer is adapted. -/
theorem run_perform_list (store : ShelfStore σ) (root : Text) (world : σ) :
    (store.perform (.list root)).run world =
      ⟨((store.list root).run world).result.map some, ((store.list root).run world).world,
        ((store.list root).run world).events⟩ :=
  Effect.run_bind_pure _ _ _

/-- Behind a listing the other calls start from the world that it leaves. -/
theorem worldAfter_list_cons (store : ShelfStore σ) (root : Text) (calls : List StoreCall)
    (world : σ) :
    store.worldAfter (.list root :: calls) world =
      store.worldAfter calls ((store.list root).run world).world := by
  rw [worldAfter, List.foldl_cons, run_perform_list]
  rfl

/-- The first answer to a call that lists is that of the store. -/
theorem answer_list (store : ShelfStore σ) (root : Text) (world : σ) :
    store.answer [] (.list root) world = ((store.list root).run world).result.map some :=
  congrArg Outcome.result (store.run_perform_list root world)

/-- A listing in front matters by the world that it leaves alone. -/
theorem answer_list_cons (store : ShelfStore σ) (root : Text) (before : List StoreCall)
    (call : StoreCall) (world : σ) :
    store.answer (.list root :: before) call world =
      store.answer before call ((store.list root).run world).world := by
  rw [answer, worldAfter_list_cons]
  rfl

/-- Whatever the store is asked, a failure in the program's own words is one of the store. -/
def FailsAsStore (store : ShelfStore σ) : Prop :=
  ∀ call world failure, ((store.perform call).run world).result = .error (.failure failure) →
    failure.kind = .store

end ShelfStore

namespace MemoryStore

open Effect (StopsOnly)

/-- A store in memory fails as it was told to, and for shelves that are missing. -/
theorem failsAsStore : MemoryStore.store.FailsAsStore := by
  intro call memory failure stopped
  let allowed (reason : Stop) : Prop :=
    ∀ failure, reason = .failure failure → failure.kind = .store
  have failed (message : Text) : allowed (.failure (ShelfStore.failure message)) := by
    rintro other same
    obtain rfl := Stop.failure.inj same
    rfl
  have working (memory : MemoryStore) : StopsOnly allowed checkWorking memory := by
    refine .bind_reads .look nofun fun found _ => ?_
    split
    · exact .fail (failed _)
    · exact .pure _
  have present (name : Text) (memory : MemoryStore) :
      StopsOnly allowed (checkPresent name) memory := by
    refine .bind_reads .look nofun fun found _ => ?_
    split
    · exact .pure _
    · exact .fail (failed _)
  have changes (step : MemoryStore → MemoryStore) (memory : MemoryStore) :
      StopsOnly allowed (Effect.change step : Effect Activity MemoryStore Unit) memory := nofun
  suffices stops : StopsOnly allowed (MemoryStore.store.perform call) memory from
    stops _ stopped failure rfl
  cases call with
  | list root =>
      refine .bind ?_ fun _ _ => .pure _
      exact .bind (working _) fun _ _ => .bind_reads .look nofun fun _ _ => .pure _
  | create request =>
      refine .bind (.bind (working _) fun _ _ => .bind (.emitAll _) fun _ _ => ?_)
        fun _ _ => .pure _
      split
      · exact .pure _
      · refine .bind_reads .look nofun fun found _ => ?_
        refine .bind_reads (.ofAccess _) (.ofAccess fun fault _ => nofun) fun record _ => ?_
        exact changes _ _
  | delete name root dryRun =>
      refine .bind (.bind (working _) fun _ _ => .bind (present _ _) fun _ _ => ?_)
        fun _ _ => .pure _
      refine .bind (.emitAll _) fun _ _ => ?_
      split
      · exact .pure _
      · exact changes _ _
  | apply name root keepLocal dryRun =>
      refine .bind (.bind (working _) fun _ _ => .bind (present _ _) fun _ _ => .emitAll _)
        fun _ _ => .pure _

end MemoryStore

end PatchShelf
