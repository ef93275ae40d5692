/-
Module: PatchShelf.Settings
Purpose: The settings of the program, and where they come from.
Main exports:
  Settings, SettingsField, SettingsFlaw, SettingsFailure, SettingsReading,
  Settings.acceptsDirectory, Settings.ofSources, Settings.load
-/
import PatchShelf.FileTree.Access
import PatchShelf.Log
import PatchShelf.Settings.EnvFile
import PatchShelf.Settings.Homes
import PatchShelf.Text.Lines

/-!
Settings come from environment variables and, behind these, from a file of
variables.  Names begin with `SHELVING_` and are compared without regard to the
case of ASCII letters.  Every field is checked, and all flaws are reported
together.  Statements of the file that cannot be read are passed over with a
notice.
-/

namespace PatchShelf

/-- The settings of the program. -/
structure Settings where
  program : Text
  diffstatProgram : Text
  shelvesDirectory : Text
  level : Level
  format : LogFormat
  debug : Bool
deriving Repr, DecidableEq, Inhabited

/-- The fields of the settings. -/
inductive SettingsField where
  | debug
  | diffstatProgram
  | format
  | level
  | shelvesDirectory
  | program
deriving Repr, DecidableEq, Inhabited

/-- The name of a field, without what all names begin with. -/
def SettingsField.label : SettingsField → Text
  | debug => "debug"
  | diffstatProgram => "diffstat_binary"
  | format => "log_format"
  | level => "log_level"
  | shelvesDirectory => "shelves_dir"
  | program => "svn_binary"

/-- The beginning of all variable names, in small letters. -/
def variableLead : Text := "shelving_"

/-- The name of the variable of a field, in small letters. -/
def SettingsField.variableName (field : SettingsField) : Text :=
  variableLead ++ field.label

/-- What can be wrong with the value of a field. -/
inductive SettingsFlaw where
  | blankProgram
  | outsideDirectory
  | unknownLevel
  | unknownFormat
  | notBoolean
  | notUnicode
deriving Repr, DecidableEq, Inhabited

namespace SettingsFlaw

/-- The name of a kind of flaw. -/
def kind : SettingsFlaw → Text
  | blankProgram => "value_error"
  | outsideDirectory => "value_error"
  | unknownLevel => "literal_error"
  | unknownFormat => "literal_error"
  | notBoolean => "bool_parsing"
  | notUnicode => "string_unicode"

/-- The wording of a flaw. -/
def message : SettingsFlaw → Text
  | blankProgram => "Value error, binary name must be a non-empty string"
  | outsideDirectory => "Value error, shelves_dir must be a relative path inside .svn"
  | unknownLevel => "Input should be 'DEBUG', 'INFO', 'WARNING', 'ERROR' or 'CRITICAL'"
  | unknownFormat => "Input should be 'json' or 'text'"
  | notBoolean => "Input should be a valid boolean, unable to interpret input"
  | notUnicode => "Input should be a valid string, unable to parse raw data as a unicode string"

end SettingsFlaw

/-- Why there are no settings: some fields have flaws, or the file of variables is
not valid UTF-8. -/
inductive SettingsFailure where
  | invalid (flaws : List (SettingsField × SettingsFlaw))
  | undecodable (refused : Utf8.DecodeFailure)
deriving Repr, DecidableEq

/-- The first line of the wording of a failure. -/
def SettingsFailure.summary : SettingsFailure → Text
  | invalid flaws =>
    Text.ofNat flaws.length ++
      (if flaws.length = 1 then " validation error" else " validation errors") ++ " for Settings"
  | undecodable refused => refused.message

/-- What comes of reading the settings: the lines of the file of variables that
were passed over, and the settings or why there are none. -/
structure SettingsReading where
  passedOver : List Nat
  result : Except SettingsFailure Settings
deriving Repr

namespace SettingsReading

/-- The notice about a statement that was passed over. -/
def notice (line : Nat) : Text :=
  "python-dotenv could not parse statement starting at line " ++ Text.ofNat line

/-- The notices about all statements that were passed over. -/
def notices (reading : SettingsReading) : List Text :=
  reading.passedOver.map notice

end SettingsReading

namespace Settings

/-- The value that is checked for a field, if it is set: the environment counts
before the file. -/
def valueOf (environment : Dictionary Text Text) (file : Dictionary Text (Option Text))
    (field : SettingsField) : Option Text :=
  match environment.get? field.variableName with
  | some value => some value
  | none => (file.get? field.variableName).join

/-- The name of a program: anything but blanks. -/
def checkProgram (value : Text) : Except SettingsFlaw Text :=
  if value.isBlank then .error .blankProgram else .ok value

/-- Does a directory lie inside the administrative area? -/
def acceptsDirectory (value : Text) : Bool :=
  let path := Path.ofText value
  !(value.isBlank || path.isAbsolute || path.parts.contains Path.up)

/-- The directory of shelves: a relative path that does not lead upwards. -/
def checkDirectory (value : Text) : Except SettingsFlaw Text :=
  if acceptsDirectory value then .ok value else .error .outsideDirectory

/-- The name of a level. -/
def checkLevel (value : Text) : Except SettingsFlaw Level :=
  match Level.ofLabel? value with
  | some level => .ok level
  | none => .error (if value.hasRaw then .notUnicode else .unknownLevel)

/-- The name of a log format. -/
def checkFormat (value : Text) : Except SettingsFlaw LogFormat :=
  if value.hasRaw then .error .notUnicode
  else if value = LogFormat.structured.label then .ok .structured
  else if value = LogFormat.text.label then .ok .text
  else .error .unknownFormat

/-- The words that mean yes. -/
def yesWords : List Text := ["1", "on", "t", "true", "y", "yes"]

/-- The words that mean no. -/
def noWords : List Text := ["0", "off", "f", "false", "n", "no"]

/-- A truth value, in any letter case. -/
def checkFlag (value : Text) : Except SettingsFlaw Bool :=
  if value.hasRaw then .error .notUnicode
  else if yesWords.contains value.lowerAscii then .ok true
  else if noWords.contains value.lowerAscii then .ok false
  else .error .notBoolean

/-- A field's value after its check: the default when the field is not set. -/
def settle {α : Type} (check : Text → Except SettingsFlaw α) (other : α) :
    Option Text → Except SettingsFlaw α
  | none => .ok other
  | some value => check value

/-- The flaw of a field, if its check found one. -/
def flawOf {α : Type} (field : SettingsField) :
    Except SettingsFlaw α → List (SettingsField × SettingsFlaw)
  | .ok _ => []
  | .error flaw => [(field, flaw)]

/-- The settings that variables give, with names in small letters. -/
def ofVariables (environment : Dictionary Text Text) (file : Dictionary Text (Option Text)) :
    Except SettingsFailure Settings :=
  let value := valueOf environment file
  let program := settle checkProgram "svn" (value .program)
  let diffstat := settle checkProgram "diffstat" (value .diffstatProgram)
  let directory := settle checkDirectory "shelves" (value .shelvesDirectory)
  let level := settle checkLevel .warning (value .level)
  let format := settle checkFormat .text (value .format)
  let debug := settle checkFlag false (value .debug)
  match program, diffstat, directory, level, format, debug with
  | .ok program, .ok diffstat, .ok directory, .ok level, .ok format, .ok debug =>
    .ok ⟨program, diffstat, directory, level, format, debug⟩
  | _, _, _, _, _, _ =>
    .error (.invalid (flawOf .debug debug ++ flawOf .diffstatProgram diffstat
      ++ flawOf .format format ++ flawOf .level level
      ++ flawOf .shelvesDirectory directory ++ flawOf .program program))

/-- Variables with their names in small letters; a later one wins. -/
def lowerNames {α : Type} (pairs : List (Text × α)) : Dictionary Text α :=
  Dictionary.ofList (pairs.map fun pair => (pair.1.lowerAscii, pair.2))

/-- The settings that an environment and a file of variables give. -/
def ofSources (environment : List (Text × Text)) (file : Dictionary Text (Option Text)) :
    Except SettingsFailure Settings :=
  ofVariables (lowerNames environment) (lowerNames file.pairs)

/-- The file of variables that is read when no other is named. -/
def defaultFile : Text := ".env"

/-- The file of variables at a path; a missing file says nothing. -/
def readFile (tree : FileTree) (base : Location) (environment : List (Text × Text))
    (path : Path) : Except Fault (Except SettingsFailure EnvFile) := do
  if ← tree.isFile base path then
    let content ← tree.read base path
    match Utf8.decode content with
    | .ok text => pure (.ok (EnvFile.ofText (Dictionary.ofList environment) text.uniformLines))
    | .error refused => pure (.error (.undecodable refused))
  else pure (.ok .empty)

/-- The settings in a file tree: the file that is named, or else the default one. -/
def load (tree : FileTree) (base : Location) (homes : Homes) (environment : List (Text × Text))
    (file : Option Text) : Except Fault SettingsReading := do
  let name := match file with
    | some named => if named = [] then defaultFile else named
    | none => defaultFile
  let path ← homes.expand (Path.ofText name)
  match ← readFile tree base environment path with
  | .ok said => pure ⟨said.unreadable, ofSources environment said.bound⟩
  | .error failure => pure ⟨[], .error failure⟩

/-- How the log is written under these settings. -/
def log (settings : Settings) : LogSettings :=
  ⟨(if settings.debug then Level.debug else settings.level).number, settings.format⟩

end Settings

end PatchShelf
