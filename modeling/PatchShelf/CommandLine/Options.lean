/-
Module: PatchShelf.CommandLine.Options
Purpose: Reading options and positional arguments from a command line.
Main exports:
  OptionKey, OptionForm, Given, CommandLine.readArgument, CommandLine.scan,
  CommandLine.splitCommand
-/
import PatchShelf.Commands

/-!
An argument that begins with a dash and is longer than that is an option.  A long
option is matched whole, with its value behind an equals sign or in the next
argument.  Otherwise a single dash starts a row of short options, the last of
which may take the rest of the argument, or the next argument, as its value.  Two
dashes alone end the options.  Options and positional arguments may be mixed.
-/

namespace PatchShelf

/-- What an option is about. -/
inductive OptionKey where
  | list
  | quiet
  | remove
  | keepLocal
  | dryRun
  | depth
  | changelist
  | message
  | file
  | targets
  | help
deriving Repr, DecidableEq, Inhabited

/-- The spellings of an option, and whether it takes a value. -/
structure OptionForm where
  key : OptionKey
  long : List Text
  short : Option Char
  takesValue : Bool
deriving Repr, DecidableEq

namespace OptionForm

/-- An option without a value. -/
def flag (key : OptionKey) (long : Text) : OptionForm := ⟨key, [long], none, false⟩

/-- The options that every command has. -/
def help : OptionForm := flag .help "--help"

/-- The options of both commands that work on one shelf. -/
def common : List OptionForm :=
  [flag .list "--list", ⟨.quiet, ["--quiet"], some 'q', false⟩, flag .keepLocal "--keep-local",
    flag .dryRun "--dry-run", ⟨.targets, ["--targets"], none, true⟩, help]

/-- The options of a command. -/
def ofCommand : Command → List OptionForm
  | .shelve => common ++
      [flag .remove "--remove", ⟨.depth, ["--depth"], none, true⟩,
        ⟨.changelist, ["--changelist", "--cl"], none, true⟩,
        ⟨.message, ["--message"], some 'm', true⟩, ⟨.file, ["--file"], some 'F', true⟩]
  | .unshelve => common
  | .shelves => [help]

end OptionForm

/-- An option as it was given, with its value. -/
structure Given where
  key : OptionKey
  value : Text
deriving Repr, DecidableEq, Inhabited

namespace CommandLine

/-- What one argument turns out to be. -/
inductive Reading where
  | positional
  | ended
  | given (options : List Given)
  | wanting (options : List Given) (key : OptionKey)
  | refused
deriving Repr, DecidableEq

/-- Put an option without a value in front of a reading. -/
def Reading.behind (key : OptionKey) : Reading → Reading
  | given options => given (⟨key, []⟩ :: options)
  | wanting options last => wanting (⟨key, []⟩ :: options) last
  | other => other

/-- Read a row of short options. -/
def readShort (forms : List OptionForm) : Text → Reading
  | [] => .given []
  | letter :: rest =>
    match forms.find? fun form => form.short.any letter.isChar with
    | none => .refused
    | some form =>
      if form.takesValue then
        if rest = [] then .wanting [] form.key else .given [⟨form.key, rest⟩]
      else (readShort forms rest).behind form.key

/-- The part of an option before its equals sign, and the value behind it. -/
def cutValue (argument : Text) : Text × Option Text :=
  match argument.dropWhile fun glyph => !glyph.isChar '=' with
  | [] => (argument, none)
  | _ :: value => (argument.takeWhile fun glyph => !glyph.isChar '=', some value)

/-- Read one argument. -/
def readArgument (forms : List OptionForm) (argument : Text) : Reading :=
  if argument = "--" then .ended
  else if argument.beginsWith "-" && 1 < argument.length then
    let (name, value) := cutValue argument
    match forms.find? fun form => form.long.contains name with
    | some form =>
      match form.takesValue, value with
      | true, some content => .given [⟨form.key, content⟩]
      | true, none => .wanting [] form.key
      | false, some _ => .refused
      | false, none => .given [⟨form.key, []⟩]
    | none =>
      if argument.beginsWith "--" then .refused else readShort forms (argument.drop 1)
  else .positional

/-- Options and positional arguments, each in the order given. -/
structure Scanned where
  options : List Given
  positionals : List Text
deriving Repr, DecidableEq

/-- Options in front of what was scanned. -/
def Scanned.after (scanned : Scanned) (options : List Given) : Scanned :=
  ⟨options ++ scanned.options, scanned.positionals⟩

/-- Tell options and positional arguments apart; nothing comes of a command line
that has an unknown option, or an option with a missing or an unwanted value. -/
def scan (forms : List OptionForm) : List Text → Option Scanned
  | [] => some ⟨[], []⟩
  | argument :: rest =>
    match readArgument forms argument with
    | .positional =>
      (scan forms rest).map fun scanned =>
        ⟨scanned.options, argument :: scanned.positionals⟩
    | .ended => some ⟨[], rest⟩
    | .given options => (scan forms rest).map (·.after options)
    | .wanting options key =>
      match rest with
      | [] => none
      | value :: behind =>
        (scan forms behind).map (·.after (options ++ [⟨key, value⟩]))
    | .refused => none

/-- What stands in front of a command line: a call for help, or a command and its
arguments. -/
inductive Front where
  | help
  | command (name : Text) (arguments : List Text)
deriving Repr, DecidableEq

/-- Read the options in front of the command; `asked` says whether help was asked
for among those read so far. -/
def splitCommand (asked : Bool) : List Text → Option Front
  | [] => if asked then some .help else none
  | argument :: rest =>
    match readArgument [OptionForm.help] argument with
    | .positional => some (if asked then .help else .command argument rest)
    | .ended =>
      if asked then some .help
      else
        match rest with
        | [] => none
        | name :: behind => some (.command name behind)
    | .given _ => splitCommand true rest
    | .wanting _ _ => none
    | .refused => none

end CommandLine

/-- The last value that was given for an option. -/
def Given.last? (options : List Given) (key : OptionKey) : Option Text :=
  ((options.filter fun option => option.key == key).getLast?).map Given.value

/-- All values that were given for an option. -/
def Given.values (options : List Given) (key : OptionKey) : List Text :=
  (options.filter fun option => option.key == key).map Given.value

/-- Was an option given? -/
def Given.has (options : List Given) (key : OptionKey) : Bool :=
  options.any fun option => option.key == key

end PatchShelf
