/-
Module: PatchShelf.Proofs.Machine.Files
Purpose: Operations on the files of a machine, one equation or law for each.
Main exports:
  Machine.withTree, Machine.run_access, Machine.run_alter, Machine.run_writeFile,
  Machine.TouchesTreeOnly, Machine.DirectoriesMade, Machine.DirectoriesMade.ofMakeDirectories,
  Machine.not_leads_of_makeDirectories_error
-/
import PatchShelf.Machine
import PatchShelf.Proofs.Effect
import PatchShelf.Proofs.FileTree.DeadEnds

/-!
Operations on files leave no trail and change nothing of a machine but its tree.
Making the directories of a path lets the tree grow by directories; if it succeeds,
the path leads to a directory that it led to before, or to one that holds nothing.
-/

namespace PatchShelf

namespace Machine

/-- The machine with another file tree. -/
def withTree (machine : Machine) (tree : FileTree) : Machine :=
  { machine with tree := tree }

@[simp] theorem tree_withTree (machine : Machine) (tree : FileTree) :
    (machine.withTree tree).tree = tree := rfl

@[simp] theorem directory_withTree (machine : Machine) (tree : FileTree) :
    (machine.withTree tree).directory = machine.directory := rfl

@[simp] theorem programs_withTree (machine : Machine) (tree : FileTree) :
    (machine.withTree tree).programs = machine.programs := rfl

@[simp] theorem clock_withTree (machine : Machine) (tree : FileTree) :
    (machine.withTree tree).clock = machine.clock := rfl

/-- A look at the files tells what they answer, and leaves the machine as it is. -/
@[simp] theorem run_access {α : Type} (query : FileTree → Location → Except Fault α)
    (machine : Machine) :
    (access query).run machine =
      ⟨(query machine.tree machine.directory).mapError .fault, machine, []⟩ := by
  rw [access, Effect.Reads.look.run_bind]
  exact Effect.run_ofAccess _ machine

/-- A look at the files only reads. -/
theorem reads_access {α : Type} (query : FileTree → Location → Except Fault α) :
    Effect.Reads (access query) := by
  intro machine
  rw [run_access]
  exact ⟨rfl, rfl⟩

/-- A change of the files happens as a whole, or a fault tells why it does not. -/
theorem run_alter (step : FileTree → Location → Except Fault FileTree) (machine : Machine) :
    (alter step).run machine =
      match step machine.tree machine.directory with
      | .ok tree => ⟨.ok (), machine.withTree tree, []⟩
      | .error fault => ⟨.error (.fault fault), machine, []⟩ := by
  rw [alter, (reads_access step).run_bind, run_access]
  cases step machine.tree machine.directory with
  | ok tree => rfl
  | error fault => rfl

/-- A file is written at the moment that the clock shows. -/
theorem run_writeFile (path : Path) (content : Bytes) (machine : Machine) :
    (writeFile path content).run machine =
      match machine.tree.write machine.directory machine.clock path content with
      | .ok tree => ⟨.ok (), machine.withTree tree, []⟩
      | .error fault => ⟨.error (.fault fault), machine, []⟩ := by
  rw [writeFile, Effect.Reads.look.run_bind]
  exact run_alter _ machine

/-- A file that was written is in the tree that is left. -/
theorem exists_of_run_writeFile {path : Path} {content : Bytes} {machine : Machine}
    (succeeded : ((writeFile path content).run machine).result = .ok ()) :
    ∃ tree, machine.tree.write machine.directory machine.clock path content = .ok tree ∧
      (writeFile path content).run machine = ⟨.ok (), machine.withTree tree, []⟩ := by
  rw [run_writeFile] at succeeded ⊢
  cases written : machine.tree.write machine.directory machine.clock path content with
  | error fault =>
      rw [written] at succeeded
      cases succeeded
  | ok tree => exact ⟨tree, rfl, rfl⟩

/-- A file that is not there is as good as one that was taken away. -/
theorem run_unlinkIfPresent (path : Path) (machine : Machine) :
    (unlinkIfPresent path).run machine =
      match machine.tree.unlink machine.directory path with
      | .ok tree => ⟨.ok (), machine.withTree tree, []⟩
      | .error (.system .notFound _) => ⟨.ok (), machine, []⟩
      | .error fault => ⟨.error (.fault fault), machine, []⟩ := by
  rw [unlinkIfPresent, Effect.run_bind, Effect.run_attempt, run_alter]
  cases machine.tree.unlink machine.directory path with
  | ok tree => rfl
  | error fault =>
      cases fault with
      | system errno shown => cases errno <;> rfl
      | _ => rfl

/-- If the directory is there after all, the reason to stop is dropped. -/
theorem run_acceptDirectory (path : Path) (reason : Stop) (machine : Machine) :
    (acceptDirectory path reason).run machine =
      match machine.tree.isDirectory machine.directory path with
      | .ok true => ⟨.ok (), machine, []⟩
      | .ok false => ⟨.error reason, machine, []⟩
      | .error fault => ⟨.error (.fault fault), machine, []⟩ := by
  rw [acceptDirectory, (reads_access _).run_bind, run_access]
  cases machine.tree.isDirectory machine.directory path with
  | error fault => rfl
  | ok there => cases there <;> rfl

/-! ### No trail -/

/-- Changes of the files leave no trail. -/
theorem silent_alter (step : FileTree → Location → Except Fault FileTree) :
    Effect.Silent (alter step) :=
  .bind (.ofReads (reads_access step)) fun _ => .change _

theorem silent_writeFile (path : Path) (content : Bytes) :
    Effect.Silent (writeFile path content) :=
  .bind (.ofReads .look) fun _ => silent_alter _

theorem silent_unlinkIfPresent (path : Path) : Effect.Silent (unlinkIfPresent path) := by
  refine .bind (.attempt (silent_alter _)) fun ended => ?_
  split
  · exact .ofReads (.pure ())
  · exact .ofReads (.pure ())
  · exact .ofReads (.stop _)

theorem reads_acceptDirectory (path : Path) (reason : Stop) :
    Effect.Reads (acceptDirectory path reason) := by
  refine .bind (reads_access _) fun there => ?_
  cases there with
  | true => exact .pure ()
  | false => exact .stop _

theorem silent_makeDirectory (path : Path) : Effect.Silent (makeDirectory path) := by
  refine .bind (.attempt (silent_alter _)) fun ended => ?_
  split
  · exact .ofReads (.pure ())
  · exact .ofReads (.stop _)
  · exact .ofReads (reads_acceptDirectory path _)

/-- By induction on the components, making directories leaves no trail. -/
theorem silent_makeDirectories (anchor : Anchor) (backwards : List Text) :
    Effect.Silent (makeDirectories anchor backwards) := by
  induction backwards with
  | nil => exact silent_makeDirectory _
  | cons last above ih =>
      refine .bind (.attempt (silent_alter _)) fun ended => ?_
      split
      · exact .ofReads (.pure ())
      · exact .bind ih fun _ => silent_makeDirectory _
      · exact .ofReads (reads_acceptDirectory _ _)

/-! ### Changes of the tree only -/

/-- The operation changes nothing of a machine but its tree. -/
def TouchesTreeOnly {α : Type} (action : Operation α) : Prop :=
  ∀ machine, (action.run machine).world = machine.withTree (action.run machine).world.tree

namespace TouchesTreeOnly

theorem ofReads {α : Type} {action : Operation α} (reads : Effect.Reads action) :
    TouchesTreeOnly action := by
  intro machine
  rw [(reads machine).1]
  rfl

/-- What is attempted touches what it would touch. -/
theorem attempt {α : Type} {action : Operation α} (touches : TouchesTreeOnly action) :
    TouchesTreeOnly (Effect.attempt action) :=
  touches

/-- A sequence touches nothing else if its parts do not. -/
theorem bind {α β : Type} {action : Operation α} {next : α → Operation β}
    (first : TouchesTreeOnly action) (second : ∀ result, TouchesTreeOnly (next result)) :
    TouchesTreeOnly (action >>= next) := by
  intro machine
  refine Effect.run_bind_induction
    (motive := fun (start : Machine) _ finish => finish = start.withTree finish.tree)
    ?_ (first machine) fun result _ => second result _
  intro _ _ _ _ _ before after
  rw [after, before]
  rfl

/-- A change of the files is one, whatever it changes. -/
theorem alter (step : FileTree → Location → Except Fault FileTree) :
    TouchesTreeOnly (alter step) := by
  intro machine
  rw [run_alter]
  cases step machine.tree machine.directory with
  | ok tree => rfl
  | error fault => rfl

theorem writeFile (path : Path) (content : Bytes) : TouchesTreeOnly (writeFile path content) :=
  .bind (.ofReads .look) fun _ => .alter _

theorem makeDirectory (path : Path) : TouchesTreeOnly (makeDirectory path) := by
  refine .bind (.attempt (.alter _)) fun ended => ?_
  split
  · exact .ofReads (.pure ())
  · exact .ofReads (.stop _)
  · exact .ofReads (reads_acceptDirectory path _)

/-- All that is made on the way to a directory is in the tree. -/
theorem makeDirectories (anchor : Anchor) (backwards : List Text) :
    TouchesTreeOnly (makeDirectories anchor backwards) := by
  induction backwards with
  | nil => exact .makeDirectory _
  | cons last above ih =>
      refine .bind (.attempt (.alter _)) fun ended => ?_
      split
      · exact .ofReads (.pure ())
      · exact .bind ih fun _ => .makeDirectory _
      · exact .ofReads (reads_acceptDirectory _ _)

end TouchesTreeOnly

/-! ### Making directories -/

/-- What an attempt to make the directories of a path leaves behind. -/
structure DirectoriesMade (machine : Machine) (path : Path)
    (outcome : Outcome Activity Machine Unit) : Prop where
  others : outcome.world = machine.withTree outcome.world.tree
  sound : outcome.world.tree.Sound
  grown : FileTree.Grown machine.tree outcome.world.tree
  leads : (∀ part ∈ path.parts, FileTree.IsEntryName part) → outcome.result = .ok () →
    ∃ place, outcome.world.tree.Leads path place ∧
      (machine.tree.Leads path place ∨ ∀ name, outcome.world.tree.get? (name :: place) = none)

namespace DirectoriesMade

variable {machine : Machine} {path : Path}

/-- Where nothing is made, nothing else is changed. -/
theorem unchanged (sound : machine.tree.Sound) {result : Except Stop Unit}
    (leads : result = .ok () → ∃ place, machine.tree.Leads path place) :
    DirectoriesMade machine path ⟨result, machine, []⟩ where
  others := rfl
  sound := sound
  grown := .refl machine.tree
  leads := fun _ succeeded => by
    obtain ⟨place, there⟩ := leads succeeded
    exact ⟨place, there, .inl there⟩

/-- A directory that was made just now holds nothing. -/
theorem made (sound : machine.tree.Sound) (absolute : path.isAbsolute = true) {tree : FileTree}
    (success : machine.tree.makeDirectory machine.directory path = .ok tree) :
    DirectoriesMade machine path ⟨.ok (), machine.withTree tree, []⟩ := by
  obtain ⟨name, directory, -, absent, above, rfl, leads⟩ :=
    FileTree.exists_of_makeDirectory sound.grounded absolute success
  have soundAfter := sound.makeDirectory absolute success
  refine ⟨rfl, soundAfter, .put absent, fun _ _ => ⟨name :: directory, leads, .inr ?_⟩⟩
  intro inner
  have fresh : machine.tree.get? (inner :: name :: directory) = none :=
    sound.grounded.get?_child_of_ne (by simp [absent]) inner
  have other : inner :: name :: directory ≠ name :: directory := by
    intro same
    simpa using congrArg List.length same
  rw [tree_withTree, FileTree.get?_put _ _ _ _ (List.cons_ne_nil _ _), if_neg other, fresh]

/-- A directory that is there already passes, whatever the reason was. -/
theorem accepted (sound : machine.tree.Sound) (absolute : path.isAbsolute = true)
    (reason : Stop) :
    DirectoriesMade machine path ((acceptDirectory path reason).run machine) := by
  rw [run_acceptDirectory]
  cases answered : machine.tree.isDirectory machine.directory path with
  | error fault => exact unchanged sound nofun
  | ok there =>
      cases there with
      | false => exact unchanged sound nofun
      | true => exact unchanged sound fun _ => (FileTree.isDirectory_iff _ absolute).1 answered

end DirectoriesMade

/-- Only where something is missing above it does the making of a directory stop at once. -/
theorem run_makeDirectory (path : Path) (machine : Machine) :
    (makeDirectory path).run machine =
      match machine.tree.makeDirectory machine.directory path with
      | .ok tree => ⟨.ok (), machine.withTree tree, []⟩
      | .error (.system .notFound shown) => ⟨.error (.fault (.system .notFound shown)), machine, []⟩
      | .error fault => (acceptDirectory path (.fault fault)).run machine := by
  rw [makeDirectory, Effect.run_bind, Effect.run_attempt, run_alter]
  cases machine.tree.makeDirectory machine.directory path with
  | ok tree => rfl
  | error fault =>
      cases fault with
      | system errno shown => cases errno <;> rfl
      | _ => rfl

/-- The last directory is made in the one that its path leads to. -/
theorem DirectoriesMade.ofMakeDirectory {machine : Machine} {path : Path}
    (sound : machine.tree.Sound) (absolute : path.isAbsolute = true) :
    DirectoriesMade machine path ((makeDirectory path).run machine) := by
  rw [run_makeDirectory]
  split
  · rename_i tree success
    exact .made sound absolute success
  · exact .unchanged sound nofun
  · exact .accepted sound absolute _

/-- What is missing above is made first, and then the directory is tried again. -/
theorem run_makeDirectories_cons (anchor : Anchor) (last : Text) (above : List Text)
    (machine : Machine) :
    let path : Path := ⟨anchor, (last :: above).reverse⟩
    (makeDirectories anchor (last :: above)).run machine =
      match machine.tree.makeDirectory machine.directory path with
      | .ok tree => ⟨.ok (), machine.withTree tree, []⟩
      | .error (.system .notFound _) =>
        (makeDirectories anchor above >>= fun _ => makeDirectory path).run machine
      | .error fault => (acceptDirectory path (.fault fault)).run machine := by
  intro path
  rw [makeDirectories, Effect.run_bind, Effect.run_attempt, run_alter]
  cases machine.tree.makeDirectory machine.directory path with
  | ok tree => rfl
  | error fault =>
      cases fault with
      | system errno shown => cases errno <;> rfl
      | _ => rfl

/-- By induction on the components: what is made lies on the way, and at the end the path leads to a
directory. -/
theorem DirectoriesMade.ofMakeDirectories {anchor : Anchor} (absolute : anchor ≠ .relative)
    (backwards : List Text) {machine : Machine} (sound : machine.tree.Sound) :
    DirectoriesMade machine ⟨anchor, backwards.reverse⟩
      ((makeDirectories anchor backwards).run machine) := by
  have rooted : ∀ parts, (Path.mk anchor parts).isAbsolute = true := by
    intro parts
    simp [Path.isAbsolute, absolute]
  induction backwards with
  | nil => exact .ofMakeDirectory sound (rooted _)
  | cons last above ih =>
      have child : (⟨anchor, (last :: above).reverse⟩ : Path) =
          Path.child ⟨anchor, above.reverse⟩ last := by
        simp [Path.child]
      rw [run_makeDirectories_cons]
      split
      · rename_i tree success
        exact .made sound (rooted _) success
      · rename_i shown missing
        -- The directories above are made first, then the directory itself.
        rw [Effect.run_bind]
        cases ended : ((makeDirectories anchor above).run machine).result with
        | error reason =>
            refine ⟨ih.others, ih.sound, ih.grown, fun names succeeded => ?_⟩
            cases succeeded
        | ok done =>
            have second := DirectoriesMade.ofMakeDirectory ih.sound
              (rooted (last :: above).reverse)
            refine ⟨second.others.trans (by rw [ih.others]; rfl), second.sound,
              ih.grown.trans second.grown, fun names succeeded => ?_⟩
            obtain ⟨place, there, before⟩ := second.leads names succeeded
            refine ⟨place, there, .inr ?_⟩
            rcases before with before | empty
            · rw [child] at missing before names
              obtain ⟨parent, leads, origin⟩ := ih.leads
                (fun part member => names part (List.mem_append_left _ member)) ended
              have name := names last (List.mem_append_right _ (List.mem_singleton_self last))
              exact absurd before
                (FileTree.not_leads_of_notFound (rooted _) name missing leads origin)
            · exact empty
      · exact .accepted sound (rooted _) _

/-- A directory that the path leads to is accepted. -/
theorem run_acceptDirectory_of_leads {machine : Machine} {path : Path} {place : Location}
    (absolute : path.isAbsolute = true) (leads : machine.tree.Leads path place) (reason : Stop) :
    (acceptDirectory path reason).run machine = ⟨.ok (), machine, []⟩ := by
  rw [run_acceptDirectory, (FileTree.isDirectory_iff _ absolute).2 ⟨place, leads⟩]

/-- A directory that is there is left alone. -/
theorem run_makeDirectory_of_leads {machine : Machine} {path : Path} {place : Location}
    (absolute : path.isAbsolute = true) (leads : machine.tree.Leads path place) :
    (makeDirectory path).run machine = ⟨.ok (), machine, []⟩ := by
  rw [run_makeDirectory, FileTree.makeDirectory_of_leads machine.directory absolute leads]
  exact run_acceptDirectory_of_leads absolute leads _

/-- Nothing is made where the directory is there. -/
theorem run_makeDirectories_of_leads {machine : Machine} {anchor : Anchor} {backwards : List Text}
    {place : Location} (absolute : anchor ≠ .relative)
    (leads : machine.tree.Leads ⟨anchor, backwards.reverse⟩ place) :
    (makeDirectories anchor backwards).run machine = ⟨.ok (), machine, []⟩ := by
  have rooted : (Path.mk anchor backwards.reverse).isAbsolute = true := by
    simp [Path.isAbsolute, absolute]
  cases backwards with
  | nil => exact run_makeDirectory_of_leads rooted leads
  | cons last above =>
      rw [run_makeDirectories_cons,
        FileTree.makeDirectory_of_leads machine.directory rooted leads]
      exact run_acceptDirectory_of_leads rooted leads _

/-- Where the path is vacant, its directories are made. -/
theorem result_makeDirectories_of_vacant {machine : Machine} {anchor : Anchor}
    {backwards : List Text} (sound : machine.tree.Sound)
    (vacant : machine.tree.Vacant ⟨anchor, backwards.reverse⟩) :
    ((makeDirectories anchor backwards).run machine).result = .ok () := by
  have absolute : anchor ≠ .relative := by
    simpa [Path.isAbsolute] using vacant.absolute
  induction backwards with
  | nil =>
      obtain ⟨above, last, more, place, shown, -⟩ := vacant.gap.exists_below
      have filled := congrArg (fun path => path.parts.length) shown
      simp [Path.below] at filled
  | cons last upper ih =>
      have split : (⟨anchor, (last :: upper).reverse⟩ : Path) =
          Path.child ⟨anchor, upper.reverse⟩ last := by simp [Path.child]
      rw [run_makeDirectories_cons]
      rw [split] at vacant ⊢
      have entry := vacant.entryPath
      generalize shown : Path.child ⟨anchor, upper.reverse⟩ last = path at vacant
      cases vacant.gap with
      | here leads absent =>
          obtain ⟨rfl, rfl⟩ := Path.child_inj shown
          rw [← shown, entry.makeDirectory_missing leads machine.directory absent]
      | deeper higher =>
          obtain ⟨rfl, rfl⟩ := Path.child_inj shown
          have parent := vacant.parent higher
          rw [← shown, FileTree.makeDirectory, parent.locate_child entry]
          simp only
          rw [Effect.run_bind, ih parent]
          -- The directory above is new, so it holds nothing.
          have made := DirectoriesMade.ofMakeDirectories absolute upper sound
          obtain ⟨place, leads, origin⟩ := made.leads parent.names (ih parent)
          have empty := origin.resolve_left (parent.not_leads place)
          simp only
          rw [run_makeDirectory, entry.makeDirectory_missing leads _ (empty _)]

end Machine

end PatchShelf
