/-
Module: PatchShelf.CommandLine.Run
Purpose: The program as a whole: settings, arguments, command, report.
Main exports:
  Invocation, Invocation.read, Ending, Report, LineStream, Report.audience,
  CommandLine.run, Report.out, Report.err
-/
import PatchShelf.CommandLine.Options
import PatchShelf.DiffStat
import PatchShelf.Settings
import PatchShelf.Store.WorkingCopy
import PatchShelf.Text.Folded

/-!
A run loads the settings, reads the command line, runs the command on a store in
the working copy and reports how it ended: a failure of the program's own makes
one line and the status 1, as do bad settings; a command line that cannot be read
makes the status 2.  A fault from below ends the run without a status; one of them is that
a line of the results is refused by the stream that it is written to.
-/

namespace PatchShelf

/-- A command line that was read. -/
structure Invocation where
  command : Command
  arguments : List Text
  options : Options
  messageFile : Option Text
  targetsFile : Option Text
deriving Repr, DecidableEq

/-- Why a command line gives no invocation. -/
inductive Refusal where
  | help
  | usage
deriving Repr, DecidableEq

namespace Invocation

/-- The depth of a name in any letter case. -/
def depthOf? (name : Text) : Option Depth :=
  Depth.ofLabel? name.folded

/-- Refuse a file that cannot be reached or is a directory. -/
def checkFile (tree : FileTree) (base : Location) (path : Path) : Except Refusal Unit :=
  match tree.locate base .target path with
  | .ok (.found _ entry) => if entry.isDirectory then .error .usage else .ok ()
  | .ok (.missing _ _) => .error .usage
  | .error _ => .error .usage

/-- Refuse a depth that is none. -/
def checkDepth (name : Text) : Except Refusal Unit :=
  match depthOf? name with
  | some _ => .ok ()
  | none => .error .usage

/-- Check the value that counts for an option. -/
def checkOption (tree : FileTree) (base : Location) (options : List Given) (key : OptionKey) :
    Except Refusal Unit :=
  match key, Given.last? options key with
  | .depth, some name => checkDepth name
  | .file, some path => checkFile tree base (Path.ofText path)
  | .targets, some path => checkFile tree base (Path.ofText path)
  | _, _ => .ok ()

/-- Check the options in the order in which they were given. -/
def checkOptions (tree : FileTree) (base : Location) (options : List Given) :
    List OptionKey → Except Refusal Unit
  | [] => .ok ()
  | key :: rest =>
    match checkOption tree base options key with
    | .ok _ => checkOptions tree base options rest
    | .error refusal => .error refusal

/-- The invocation that options and positional arguments mean. -/
def ofScanned (command : Command) (scanned : CommandLine.Scanned) : Invocation :=
  let given := scanned.options
  { command := command
    arguments := scanned.positionals
    options :=
      { listOnly := Given.has given .list
        quiet := Given.has given .quiet
        remove := Given.has given .remove
        keepLocal := Given.has given .keepLocal
        dryRun := Given.has given .dryRun
        depth := (Given.last? given .depth).bind depthOf?
        changelists := Given.values given .changelist
        message := Given.last? given .message }
    messageFile := Given.last? given .file
    targetsFile := Given.last? given .targets }

/-- Read the command line of a run. -/
def read (tree : FileTree) (base : Location) (line : List Text) : Except Refusal Invocation :=
  match CommandLine.splitCommand false line with
  | none => .error .usage
  | some .help => .error .help
  | some (.command name arguments) =>
    match Command.ofLabel? name with
    | none => .error .usage
    | some command =>
      match CommandLine.scan (OptionForm.ofCommand command) arguments with
      | none => .error .usage
      | some scanned =>
        if Given.has scanned.options .help then .error .help
        else
          match checkOptions tree base scanned.options (scanned.options.map Given.key) with
          | .ok _ => .ok (ofScanned command scanned)
          | .error refusal => .error refusal

end Invocation

/-- How a run ends. -/
inductive Ending where
  | finished
  | failed
  | unconfigured
  | helped
  | misused
  | broken (below : Fault)
deriving Repr, DecidableEq

/-- The exit status of a run, if it has one. -/
def Ending.status? : Ending → Option Nat
  | finished => some 0
  | failed => some 1
  | unconfigured => some 1
  | helped => some 0
  | misused => some 2
  | broken _ => none

/-- A stream that lines are written to: the fault with which each is refused, if it is. -/
abbrev LineStream : Type := Audience Text

/-- A stream of valid UTF-8, which refuses the lines with stray bytes. -/
def LineStream.strict : LineStream := fun line =>
  match Utf8.encodeValid line with
  | .ok _ => none
  | .error failure => some (.unencodable failure.message)

/-- What a run leaves. -/
structure Report where
  ending : Ending
  log : LogSettings
  events : List Event
  machine : Machine

namespace Report

/-- Lines as one text. -/
def ofLines (lines : List Text) : Text :=
  lines.flatMap fun line => line ++ [.char '\n']

/-- The line of an event in the results, if it makes one. -/
def outLine? : Event → Option Text
  | .activity (.notified event) => some event.line
  | .printed text => some text
  | .activity _ => none
  | .asked _ => none
  | .summarized _ => none
  | .warned _ => none

/-- The line of an event among the messages, if it makes one. -/
def errLine? (log : LogSettings) (moment : Text) : Event → Option Text
  | .activity (.logged record) => log.line? moment record
  | .warned text => some text
  | .activity _ => none
  | .asked _ => none
  | .summarized _ => none
  | .printed _ => none

/-- The results of a run. -/
def out (report : Report) : Text :=
  ofLines (report.events.filterMap outLine?)

/-- The audience of a run whose results are written to a stream.  It refuses what the stream
does; what makes no line of the results is not refused. -/
def audience (stream : LineStream) : Audience Event :=
  fun event => (outLine? event).bind stream

/-- The messages of a run, log lines among them. -/
def err (report : Report) (moment : Text) : Text :=
  ofLines (report.events.filterMap (errLine? report.log moment))

end Report

namespace CommandLine

open Session (Operation)

/-- The name under which a run writes to the log. -/
def mainLogger : Text := "shelving.main"

/-- The name under which the command line writes to the log. -/
def logger : Text := "shelving.adapters.cli.commands"

/-- The text of a file that the command line names, which must be valid UTF-8. -/
def readTextFile (path : Path) : Operation Machine Text := do
  let content ← Session.consult (Machine.access fun tree base => tree.read base path)
  match Utf8.decode content with
  | .ok text => pure text
  | .error _ =>
    Effect.fail (.saying .encoding ("Can't convert '" ++ path.toText ++ "' to UTF-8"))

/-- The targets that a text names, one a line. -/
def targetLines (text : Text) : List Text :=
  (text.splitLines.map Text.strip).filter fun line => !line.isEmpty

/-- The targets of the file that is named, if one is. -/
def readTargets : Option Text → Operation Machine (List Text)
  | none => pure []
  | some path => do
    let text ← readTextFile (Path.ofText path)
    pure (targetLines text)

/-- The log message: the one given, or else the text of the file that is named. -/
def readMessage : Option Text → Option Text → Operation Machine (Option Text)
  | some _, some _ =>
    Effect.fail (.saying .argumentShape "--message (-m) and --file (-F) are mutually exclusive")
  | some message, none => pure (some message)
  | none, some path => do
    let text ← readTextFile (Path.ofText path)
    pure (some text)
  | none, none => pure none

/-- The store and the summaries that settings name. -/
def backendOf (settings : Settings) : Backend Machine :=
  ⟨WorkingCopyStore.store ⟨settings.program, settings.shelvesDirectory⟩,
    DiffStat.summarize settings.diffstatProgram⟩

/-- Run the command of an invocation. -/
def perform (settings : Settings) (invocation : Invocation) : Operation Machine Unit := do
  let message ← readMessage invocation.options.message invocation.messageFile
  let extra ← readTargets invocation.targetsFile
  let session ← Effect.look
  let surroundings : Surroundings := ⟨session.world.directoryText?, session.world.clock⟩
  invocation.command.run (backendOf settings) surroundings
    (invocation.arguments.map .text)
    { invocation.options with message := message, extraTargets := extra }

/-- Report a failure of a command. -/
def reportFailure (command : Command) (failure : Failure) : Operation Machine Unit := do
  Session.log .debug logger (command.label ++ " failed: " ++ failure.diagnostic)
  Effect.emit (.warned (failure.report command.label))

/-- Run the command of an invocation and report its failure. -/
def conclude (settings : Settings) (invocation : Invocation) : Operation Machine Ending := do
  match ← Effect.attempt (perform settings invocation) with
  | .ok _ => pure .finished
  | .error (.failure reported) =>
    reportFailure invocation.command reported
    pure .failed
  | .error (.fault below) => pure (.broken below)

/-- Run a command line under settings. -/
def execute (settings : Settings) (line : List Text) : Operation Machine Ending := do
  Session.log .debug mainLogger "Starting shelving commands"
  let session ← Effect.look
  match Invocation.read session.world.tree session.world.directory line with
  | .ok invocation => conclude settings invocation
  | .error .help => pure .helped
  | .error .usage => pure .misused

/-- How a run ends whose operation gave an ending or stopped. -/
def endingOf : Except Stop Ending → Ending
  | .ok ending => ending
  | .error (.failure _) => .failed
  | .error (.fault below) => .broken below

/-- How the log is written as long as there are no settings. -/
def defaultLog : LogSettings := ⟨Level.warning.number, .text⟩

/-- The line that reports why there are no settings. -/
def configurationText (failure : SettingsFailure) : Text :=
  "svn: invalid configuration: " ++ failure.summary

/-- Run a command line on a machine, with a stream for the results. -/
def run (results : LineStream) (homes : Homes) (environment : List (Text × Text))
    (line : List Text) (machine : Machine) : Report :=
  match Settings.load machine.tree machine.directory homes environment none with
  | .error below => ⟨.broken below, defaultLog, [], machine⟩
  | .ok reading =>
    let notices := reading.notices.map Event.warned
    match reading.result with
    | .error failure =>
      ⟨.unconfigured, defaultLog, notices ++ [.warned (configurationText failure)], machine⟩
    | .ok settings =>
      let outcome :=
        (execute settings line).runBefore (Report.audience results) ⟨⟨true, none⟩, machine⟩
      ⟨endingOf outcome.result, settings.log, notices ++ outcome.events, outcome.world.world⟩

end CommandLine

end PatchShelf
