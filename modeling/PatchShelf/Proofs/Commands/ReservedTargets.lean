/-
Module: PatchShelf.Proofs.Commands.ReservedTargets
Purpose: Which targets of a new shelf name the administrative area.
Main exports:
  Arguments.mem_targets_iff, Arguments.isReserved_absolutizeOne,
  Commands.targets_of_asked_create, Commands.exists_reserved_target_iff
-/
import PatchShelf.Commands
import PatchShelf.Store.Memory
import PatchShelf.Proofs.NormalForm
import PatchShelf.Proofs.Session

/-!
Targets are dropped by their last component as they were written.  What the store gets
are their normal forms, without a peg revision, so a reserved name that only comes out
by cutting the revision off, or by resolving dots and slashes, passes.  It passes in no
other way: the store gets a reserved target exactly if an argument is not reserved as it
was written and ends in the reserved name as it is read.
-/

namespace PatchShelf

/-- The name of the administrative area. -/
def Arguments.administrative : Text := ".svn"

namespace Arguments

theorem isReserved_iff (target : Text) :
    isReserved target = true ↔ Path.lastComponent target = administrative := by
  simp [isReserved, reservedNames, administrative]

theorem toUtf8_text {text : Text} (valid : text.hasRaw = false) :
    toUtf8 (.text text) = .ok text := by
  rw [toUtf8, if_neg (by simp [valid])]

/-- A selection is put together from the first argument and the selection of the others. -/
theorem exists_of_collectTargets_cons {first : Argument} {rest : List Argument}
    {selection : TargetSelection} (collected : collectTargets (first :: rest) = .ok selection) :
    ∃ given others, toUtf8 first = .ok given ∧ collectTargets rest = .ok others ∧
      selection = if isReserved given then ⟨others.targets, given :: others.skipped⟩
        else ⟨given :: others.targets, others.skipped⟩ := by
  rw [collectTargets] at collected
  obtain ⟨given, decoded, collected⟩ := exists_of_bind_eq_ok collected
  obtain ⟨others, later, collected⟩ := exists_of_bind_eq_ok collected
  refine ⟨given, others, decoded, later, ?_⟩
  split at collected
  · rename_i reserved
    rw [if_pos reserved]
    exact (Except.ok.inj collected).symm
  · rename_i free
    rw [if_neg free]
    exact (Except.ok.inj collected).symm

/-- The targets that are kept are the arguments that are not reserved as they stand. -/
theorem mem_targets_iff {arguments : List Argument} {selection : TargetSelection}
    (collected : collectTargets arguments = .ok selection) (target : Text) :
    target ∈ selection.targets ↔
      ∃ argument ∈ arguments, toUtf8 argument = .ok target ∧ isReserved target = false := by
  induction arguments generalizing selection with
  | nil =>
      obtain rfl := Except.ok.inj collected
      simp
  | cons first rest ih =>
      obtain ⟨given, others, decoded, later, rfl⟩ := exists_of_collectTargets_cons collected
      have firstIs : toUtf8 first = .ok target ↔ target = given := by
        rw [decoded, Except.ok.injEq]
        exact eq_comm
      have spread : (∃ argument ∈ first :: rest,
            toUtf8 argument = .ok target ∧ isReserved target = false) ↔
          target = given ∧ isReserved given = false ∨ target ∈ others.targets := by
        rw [ih later]
        constructor
        · rintro ⟨argument, member, means, free⟩
          rcases List.mem_cons.1 member with rfl | behind
          · obtain rfl := firstIs.1 means
            exact .inl ⟨rfl, free⟩
          · exact .inr ⟨argument, behind, means, free⟩
        · rintro (⟨rfl, free⟩ | ⟨argument, behind, means, free⟩)
          · exact ⟨first, List.mem_cons_self, decoded, free⟩
          · exact ⟨argument, List.mem_cons_of_mem _ behind, means, free⟩
      rw [spread]
      by_cases reserved : isReserved given = true
      · simp [reserved]
      · simp [reserved]

/-- A target in normal form names the administrative area exactly if it ends in this as it
is read, provided that the directory it is read in does not lie below one. -/
theorem isReserved_absolutizeOne {root : Path} (absolute : root.isAbsolute = true)
    (valid : ∀ part ∈ root.parts, Path.IsPart part) (clear : administrative ∉ root.parts)
    (target : Text) :
    isReserved (absolutizeOne root.toText target) = true ↔
      Path.EndsIn administrative (Path.ofText target).parts := by
  have joined := Path.isAbsolute_join absolute (Path.ofText target)
  have parts := Path.isPart_of_mem_join valid target
  have shortened : ∀ part ∈ (root / Path.ofText target).normalize.parts, Path.IsPart part :=
    fun part member => parts part (Path.mem_of_mem_normalize joined member).2
  have lastIs (parts : List Text) :
      parts.getLastD [] = administrative ↔ parts.getLast? = some administrative := by
    rw [List.getLastD_eq_getLast?]
    cases parts.getLast? with
    | none => exact iff_of_false (by decide) (Option.some_ne_none _).symm
    | some last => simp
  have readIn : Path.EndsIn administrative (root / Path.ofText target).parts ↔
      Path.EndsIn administrative (Path.ofText target).parts := by
    by_cases anchored : (Path.ofText target).isAbsolute = true
    · rw [Path.join_of_isAbsolute _ anchored]
    · rw [Path.join_of_not_isAbsolute _ anchored]
      exact Path.endsIn_append_iff clear
  rw [isReserved_iff, absolutizeOne, Path.ofText_toText absolute valid,
    Path.lastComponent_toText ((Path.isAbsolute_normalize _).trans joined) shortened, lastIs,
    Path.getLast?_normalize_iff joined (by decide), readIn]

end Arguments

namespace Commands

open Session (Operation)

variable {σ : Type}

/-- The store is asked for nothing but lists, deletions and shelves of these targets. -/
def CreatesFrom (arguments : List Argument) (root : Text) : StoreCall → Prop
  | .create request => ∃ selection, Arguments.collectTargets arguments = .ok selection ∧
      request.targets = Arguments.absolutize (selection.targets.map Arguments.stripPeg) root
  | .list _ | .delete .. | .apply .. => True

theorem asks_inOrder (backend : Backend σ) (root : Text) {allowed : StoreCall → Prop}
    (lists : allowed (.list root)) : Session.Asks allowed (inOrder backend root) :=
  (Session.Asks.askList lists).bind fun _ =>
    (Session.asks_log _ _ _).bind fun _ => Session.asks_pure _

theorem asks_listShelves (backend : Backend σ) (root : Text) (now : Instant) (statistics : Bool)
    {allowed : StoreCall → Prop} (lists : allowed (.list root)) :
    Session.Asks allowed (listShelves backend root now statistics) := by
  refine (asks_inOrder backend root lists).bind fun _ => Session.Asks.forEach fun entry _ => ?_
  refine (Session.asks_print _).bind fun _ => ?_
  split
  · refine (Session.Asks.askSummary backend _).bind fun summary => ?_
    refine Session.Asks.bind ?_ fun _ => Session.asks_print _
    rw [printSummary]
    split
    · exact Session.asks_pure ()
    · exact Session.asks_print _
  · exact Session.asks_pure ()

theorem asks_confirm (options : Options) (done name : Text) {allowed : StoreCall → Prop} :
    Session.Asks allowed (confirm options done name : Operation σ Unit) := by
  rw [confirm]
  split
  · exact Session.asks_pure ()
  · exact Session.asks_print _

theorem asks_removeShelf (backend : Backend σ) (root : Text) (options : Options) (name : Text)
    (rest : List Argument) {allowed : StoreCall → Prop}
    (deletes : allowed (.delete name root options.dryRun)) :
    Session.Asks allowed (removeShelf backend root options name rest) :=
  Session.Asks.bind_ofChecked fun _ _ => (Session.asks_log _ _ _).bind fun _ =>
    (Session.Asks.askDelete deletes).bind fun _ => asks_confirm options _ _

/-- A shelf is asked for after the checks of the targets and of the message. -/
theorem asks_createShelf (backend : Backend σ) (root : Text) (options : Options) (name : Text)
    (rest : List Argument) {allowed : StoreCall → Prop}
    (creates : ∀ selection message,
      Arguments.collectTargets (rest ++ options.extraTargets.map .text) = .ok selection →
        checkMessage options.message = .ok () →
          allowed (.create ⟨name,
            Arguments.absolutize (selection.targets.map Arguments.stripPeg) root,
            options.depth.getD .infinity, options.changelists, options.keepLocal, options.dryRun,
            message⟩)) :
    Session.Asks allowed (createShelf backend root options name rest) := by
  refine Session.Asks.bind_ofChecked fun selection collected => ?_
  refine (Session.Asks.forEach fun target _ => ?_).bind fun _ => ?_
  · exact (Session.asks_log _ _ _).bind fun _ => Session.asks_emit fun _ same => nomatch same
  · split
    · exact Session.asks_fail _
    · refine Session.Asks.bind_ofChecked fun _ _ => Session.Asks.bind_ofChecked fun _ valid => ?_
      refine (Session.asks_log _ _ _).bind fun _ => ?_
      exact (Session.Asks.withLogMessage (Session.Asks.askCreate fun message =>
        creates selection message collected valid)).bind fun _ => asks_confirm options _ _

/-- The shelf name is taken off as it stands, so the targets are the arguments behind it. -/
theorem rest_of_takeName {arguments rest : List Argument} {name : Text}
    (taken : Arguments.takeName arguments = .ok (name, rest)) : rest = arguments.tail := by
  cases arguments with
  | nil => cases taken
  | cons first others =>
      rw [Arguments.takeName] at taken
      obtain ⟨given, -, taken⟩ := exists_of_bind_eq_ok taken
      obtain ⟨kept, -, taken⟩ := exists_of_bind_eq_ok taken
      cases taken
      rfl

/-- The targets that the store gets are read, cut and normalised one by one. -/
theorem asks_shelve (backend : Backend σ) (surroundings : Surroundings)
    (arguments : List Argument) (options : Options) :
    Session.Asks (fun call => ∃ root, surroundings.root = .ok root ∧
        CreatesFrom (arguments.tail ++ options.extraTargets.map .text) root call)
      (shelve backend surroundings arguments options) := by
  refine Session.Asks.bind_if (Session.asks_of_silent (.change _)) fun _ => ?_
  refine Session.Asks.bind_ofAccess fun root located => ?_
  split
  · exact Session.Asks.bind_ofChecked fun _ _ =>
      asks_listShelves backend root _ _ ⟨root, located, trivial⟩
  · refine Session.Asks.bind_ofChecked fun named taken => ?_
    obtain ⟨name, rest⟩ := named
    obtain rfl := rest_of_takeName taken
    simp only
    split
    · exact asks_removeShelf backend root options name _ ⟨root, located, trivial⟩
    · exact asks_createShelf backend root options name _ fun selection message collected _ =>
        ⟨root, located, selection, collected, rfl⟩

/-- The root of a command is the normal form of its working directory. -/
theorem exists_of_root {surroundings : Surroundings} {root : Text}
    (located : surroundings.root = .ok root) :
    ∃ directory, surroundings.directory = some directory ∧
      root = (Path.ofText directory).absolute.toText := by
  rw [Surroundings.root.eq_def] at located
  cases known : surroundings.directory with
  | none =>
      rw [known] at located
      cases located
  | some directory =>
      rw [known] at located
      exact ⟨directory, rfl, (Except.ok.inj located).symm⟩

/-- Outside administrative areas, `shelve` asks the store to shelve a target of a reserved
name exactly if one of the arguments ends in that name as it is read, and not as it was
written. -/
theorem exists_reserved_target_iff (backend : Backend σ) (surroundings : Surroundings)
    (arguments : List Argument) (options : Options) (session : Session σ)
    (request : CreateRequest)
    (clear : ∀ directory, surroundings.directory = some directory →
      Arguments.administrative ∉ (Path.ofText directory).parts)
    (asked : .asked (.create request) ∈
      ((shelve backend surroundings arguments options).run session).events) :
    (∃ target ∈ request.targets, Arguments.isReserved target = true) ↔
      ∃ argument ∈ arguments.tail ++ options.extraTargets.map .text, ∃ given,
        Arguments.toUtf8 argument = .ok given ∧ Arguments.isReserved given = false ∧
          Path.EndsIn Arguments.administrative
            (Path.ofText (Arguments.stripPeg given)).parts := by
  obtain ⟨root, located, selection, collected, targets⟩ :=
    asks_shelve backend surroundings arguments options session _ asked
  obtain ⟨directory, known, rfl⟩ := exists_of_root located
  have absolute := Path.isAbsolute_absolute (Path.ofText directory)
  have inherited : ∀ part ∈ (Path.ofText directory).absolute.parts,
      part ∈ (Path.ofText directory).parts := fun _ => Path.mem_of_mem_absolute _
  have valid : ∀ part ∈ (Path.ofText directory).absolute.parts, Path.IsPart part :=
    fun part member => Path.isPart_of_mem_ofText (inherited part member)
  have outside : Arguments.administrative ∉ (Path.ofText directory).absolute.parts :=
    fun member => clear directory known (inherited _ member)
  -- No part of the working directory bears a reserved name, so only the argument can.
  have reservedIff := Arguments.isReserved_absolutizeOne absolute valid outside
  constructor
  · rintro ⟨target, member, reserved⟩
    rw [targets, Arguments.absolutize, List.map_map] at member
    obtain ⟨given, kept, rfl⟩ := List.mem_map.1 member
    obtain ⟨argument, among, means, free⟩ := (Arguments.mem_targets_iff collected given).1 kept
    exact ⟨argument, among, given, means, free, (reservedIff _).1 reserved⟩
  · rintro ⟨argument, among, given, means, free, ends⟩
    have kept := (Arguments.mem_targets_iff collected given).2 ⟨argument, among, means, free⟩
    refine ⟨_, ?_, (reservedIff _).2 ends⟩
    rw [targets, Arguments.absolutize, List.map_map]
    exact List.mem_map.2 ⟨given, kept, rfl⟩

/-- An empty memory store, and a session on it. -/
def emptySession : Session MemoryStore :=
  ⟨⟨true, none⟩, ⟨.empty, none, .epoch⟩⟩

/-- The request that `.svn@1` leads to in the directory `/w`. -/
def peggedRequest : CreateRequest :=
  ⟨"n", ["/w/.svn"], .infinity, [], false, false, none⟩

/-- The administrative area with a peg revision is shelved. -/
theorem reserved_target_behind_peg :
    .asked (.create peggedRequest) ∈ ((shelve ⟨MemoryStore.store, fun _ => pure []⟩
        ⟨some "/w", .epoch⟩ [.text "n", .text ".svn@1"] {}).run emptySession).events ∧
      ∃ target ∈ peggedRequest.targets, Arguments.isReserved target = true := by
  have asked : .asked (.create peggedRequest) ∈
      ((shelve ⟨MemoryStore.store, fun _ => pure []⟩ ⟨some "/w", .epoch⟩
        [.text "n", .text ".svn@1"] {}).run emptySession).events := by decide +kernel
  have clear : ∀ directory, some ("/w" : Text) = some directory →
      Arguments.administrative ∉ (Path.ofText directory).parts := by
    rintro directory known
    obtain rfl := Option.some.inj known
    decide
  refine ⟨asked, (exists_reserved_target_iff _ _ _ _ _ _ clear asked).2 ?_⟩
  exact ⟨.text ".svn@1", by decide, ".svn@1", by rfl, by decide, [], [], by decide, by decide⟩

end Commands

end PatchShelf
