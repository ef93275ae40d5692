/-
Module: PatchShelf.Commands
Purpose: The commands that shelve, unshelve and list changes.
Main exports:
  Options, Surroundings, Commands.youngest, Commands.resolve,
  Commands.listShelves, Commands.shelve, Commands.unshelve, Commands.shelves
-/
import PatchShelf.Arguments
import PatchShelf.Listing
import PatchShelf.Session

/-!
A command checks the shape of its arguments, settles which shelf it is about,
leaves the work to the store and prints a confirmation.  The first failure ends
the command.
-/

namespace PatchShelf

/-- The options of the commands. -/
structure Options where
  listOnly : Bool := false
  quiet : Bool := false
  remove : Bool := false
  keepLocal : Bool := false
  dryRun : Bool := false
  depth : Option Depth := none
  changelists : List Text := []
  message : Option Text := none
  extraTargets : List Text := []
deriving Repr, DecidableEq, Inhabited

/-- Where and when a command runs; without a directory when that is lost. -/
structure Surroundings where
  directory : Option Text
  now : Instant
deriving Repr, DecidableEq

/-- The working directory in normal form, unless it is lost. -/
def Surroundings.root (surroundings : Surroundings) : Except Fault Text :=
  match surroundings.directory with
  | some directory => .ok (Path.ofText directory).absolute.toText
  | none => .error .lostDirectory

namespace Commands

open Session (Operation)

variable {σ : Type}

/-- The name under which the lister writes to the log. -/
def listerLogger : Text := "shelving.core.lister"

/-- The name under which the resolver of shelf names writes to the log. -/
def resolverLogger : Text := "shelving.core.resolver"

/-- Write a detail about the running command to the log. -/
def trace (message : Text) : Operation σ Unit :=
  Session.log .debug Session.commandsLogger message

/-- A truth value in the log. -/
def flagText : Bool → Text
  | true => "True"
  | false => "False"

/-- The end of a log line that says whether the command is a dry run. -/
def dryRunText (options : Options) : Text :=
  "dry_run=" ++ flagText options.dryRun ++ ")"

/-- All shelves, oldest first. -/
def inOrder (backend : Backend σ) (root : Text) : Operation σ (List (Text × ShelfRecord)) := do
  let shelves ← Session.askList backend root
  Session.log .debug listerLogger
    ("Found " ++ Text.ofNat shelves.size ++ " shelved changes under " ++ root)
  pure shelves.inOrder

/-- The name of the shelf that was modified last. -/
def youngest (backend : Backend σ) (root : Text) : Operation σ Text := do
  let entries ← inOrder backend root
  match Shelves.lastName? entries with
  | none => Effect.fail (.plain .noShelves)
  | some name => pure name

/-- A shelf name, the arguments behind it, and whether it was picked by age. -/
structure Resolved where
  name : Text
  rest : List Argument
  automatic : Bool
deriving Repr, DecidableEq

/-- The shelf that the first argument names, or else the youngest. -/
def resolve (backend : Backend σ) (arguments : List Argument) (root : Text) :
    Operation σ Resolved := do
  if arguments.isEmpty then
    let name ← youngest backend root
    Session.log .debug resolverLogger ("Auto-selected youngest shelf " ++ name.quoted)
    pure ⟨name, [], true⟩
  else
    let (name, rest) ← Effect.ofChecked (Arguments.takeName arguments)
    pure ⟨name, rest, false⟩

/-- Print the summary of a patch, if there is one. -/
def printSummary (summary : Text) : Operation σ Unit :=
  if summary = [] then pure ()
  else Session.print (summary.dropEndWhile (·.isChar '\n'))

/-- Print one shelf of a listing. -/
def printEntry (backend : Backend σ) (now : Instant) (statistics : Bool)
    (entry : Text × ShelfRecord) : Operation σ Unit := do
  Session.print (Listing.entryText entry.1 entry.2 now)
  if statistics then
    let summary ← Session.askSummary backend entry.2.patchPath
    printSummary summary
    Session.print []
  else pure ()

/-- Print every shelf, oldest first. -/
def listShelves (backend : Backend σ) (root : Text) (now : Instant) (statistics : Bool) :
    Operation σ Unit := do
  let entries ← inOrder backend root
  Effect.forEach entries (printEntry backend now statistics)

/-- Print that something was done to a shelf, unless the command is quiet. -/
def confirm (options : Options) (done name : Text) : Operation σ Unit :=
  if options.quiet then pure () else Session.print (done ++ " '" ++ name ++ "'")

/-- Warn about a target that was dropped. -/
def warnSkipped (target : Text) : Operation σ Unit := do
  let warning : Text := "Skipping argument: '" ++ target ++ "' ends in a reserved name"
  Session.log .warning Session.commandsLogger warning
  Effect.emit (.warned warning)

/-- Delete the shelf of a name. -/
def removeShelf (backend : Backend σ) (root : Text) (options : Options)
    (name : Text) (rest : List Argument) : Operation σ Unit := do
  Effect.ofChecked (Arguments.requireNone rest)
  trace ("Deleting shelf " ++ name.quoted ++ " (" ++ dryRunText options)
  Session.askDelete backend name root options.dryRun
  confirm options "deleted" name

/-- The message of the options, unless it is not valid UTF-8. -/
def checkMessage : Option Text → Except Failure Unit
  | none => .ok ()
  | some message => (Arguments.toUtf8 (.text message)).map fun _ => ()

/-- Shelve the changes under targets. -/
def createShelf (backend : Backend σ) (root : Text) (options : Options)
    (name : Text) (rest : List Argument) : Operation σ Unit := do
  let selection ← Effect.ofChecked
    (Arguments.collectTargets (rest ++ options.extraTargets.map .text))
  Effect.forEach selection.skipped warnSkipped
  if selection.targets = [] then Effect.fail (.plain .badTarget)
  else
    Effect.ofChecked (Arguments.checkLocal selection.targets)
    Effect.ofChecked (checkMessage options.message)
    let depth := options.depth.getD .infinity
    let targets :=
      Arguments.absolutize (selection.targets.map Arguments.stripPeg) root
    trace ("Shelving " ++ Text.ofNat targets.length ++ " targets as " ++ name.quoted
      ++ " (depth=" ++ depth.label ++ ", " ++ dryRunText options)
    Session.withLogMessage options.message
      (Session.askCreate backend fun message =>
        ⟨name, targets, depth, options.changelists, options.keepLocal, options.dryRun, message⟩)
    confirm options "shelved" name

/-- Create, delete or list shelves. -/
def shelve (backend : Backend σ) (surroundings : Surroundings) (arguments : List Argument)
    (options : Options) : Operation σ Unit := do
  if options.quiet then Session.silence else pure ()
  let root ← Effect.ofAccess surroundings.root
  if options.listOnly then
    Effect.ofChecked (Arguments.requireNone arguments)
    listShelves backend root surroundings.now !options.quiet
  else
    let (name, rest) ← Effect.ofChecked (Arguments.takeName arguments)
    if options.remove then removeShelf backend root options name rest
    else createShelf backend root options name rest

/-- Apply a shelf, the youngest one if none is named, or list shelves. -/
def unshelve (backend : Backend σ) (surroundings : Surroundings) (arguments : List Argument)
    (options : Options) : Operation σ Unit := do
  let root ← Effect.ofAccess surroundings.root
  if options.listOnly then
    Effect.ofChecked (Arguments.requireNone arguments)
    listShelves backend root surroundings.now !options.quiet
  else
    let resolved ← resolve backend arguments root
    if resolved.automatic then
      Session.print ("unshelving the youngest change, '" ++ resolved.name ++ "'")
    else pure ()
    Effect.ofChecked
      (Arguments.requireNone (resolved.rest ++ options.extraTargets.map .text))
    if options.quiet then Session.silence else pure ()
    trace ("Unshelving " ++ resolved.name.quoted ++ " (" ++ dryRunText options)
    Session.askApply backend resolved.name root options.keepLocal options.dryRun
    confirm options "unshelved" resolved.name

/-- List all shelves with statistics. -/
def shelves (backend : Backend σ) (surroundings : Surroundings) (arguments : List Argument)
    (_options : Options) : Operation σ Unit := do
  Effect.ofChecked (Arguments.requireNone arguments)
  let root ← Effect.ofAccess surroundings.root
  listShelves backend root surroundings.now true

end Commands

/-- The commands by name. -/
inductive Command where
  | shelve
  | unshelve
  | shelves
deriving Repr, DecidableEq, Inhabited

namespace Command

/-- The name of a command. -/
def label : Command → Text
  | shelve => "shelve"
  | unshelve => "unshelve"
  | shelves => "shelves"

/-- All commands. -/
def all : List Command := [shelve, unshelve, shelves]

/-- The command of a name. -/
def ofLabel? (name : Text) : Option Command :=
  all.find? fun command => command.label == name

/-- Run a command. -/
def run {σ : Type} : Command → Backend σ → Surroundings → List Argument → Options →
    Session.Operation σ Unit
  | shelve => Commands.shelve
  | unshelve => Commands.unshelve
  | shelves => Commands.shelves

end Command

end PatchShelf
