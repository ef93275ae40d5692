/-
Module: PatchShelf.Main
Purpose: The executable: it copies the files a run needs into a file tree, runs,
  prints, and carries the changes over to the disk.
Main exports:
  main
-/
import PatchShelf.CommandLine.Run
import PatchShelf.FileTree.Changes
import Std.Time.DateTime.Timestamp

/-!
All decisions are made by `CommandLine.run` on a file tree.  The tree holds the
working directory, the directories above it with their shelves, the file of
variables, and what the arguments name.  External programs are not run from
here, so the machine has none.
-/

namespace PatchShelf

namespace Executable

/-- The location of an absolute path. -/
def locationOf (path : String) : Location :=
  .ofPath (Path.ofText path)

/-- The string of a text; what stands for stray bytes is left out. -/
def plainString (text : Text) : String :=
  String.ofList (text.filterMap fun
    | .char scalar => some scalar
    | .raw _ => none)

/-- The absolute path of a location. -/
def stringOf (location : Location) : String :=
  plainString location.toPath.toText

/-- The instant of a number of microseconds, the start of 1970 if there is none. -/
def instantOf (micros : Int) : Instant :=
  match Instant.ofMicros micros with
  | .ok moment => moment
  | .error _ => .epoch

/-- Copy the file or directory at an absolute path into a tree. -/
def copyEntry (tree : FileTree) (path : String) : IO FileTree := do
  try
    let resolved ← IO.FS.realPath path
    let data ← resolved.metadata
    match data.type with
    | .dir => pure (tree.putDirectories (locationOf path))
    | .file =>
      let content ← IO.FS.readBinFile resolved
      let modified : FileTime := ⟨data.modified.sec, data.modified.nsec.toNat % nanosPerSecond,
        Nat.mod_lt _ (by decide)⟩
      let location := locationOf path
      pure ((tree.putDirectories location.tail).put location
        (.file content.toList modified))
    | _ => pure tree
  catch _ => pure tree

/-- Copy what an absolute path names and, if it is a directory, what it holds. -/
def copyDirectory (tree : FileTree) (path : String) : IO FileTree := do
  let copied ← copyEntry tree path
  try
    let resolved ← IO.FS.realPath path
    let entries ← resolved.readDir
    entries.toList.foldlM (fun tree entry => copyEntry tree (path ++ "/" ++ entry.fileName)) copied
  catch _ => pure copied

/-- Copy the shelves of every working copy at or above a location. -/
def copyShelves (shelves : Text) : FileTree → Location → IO FileTree
  | tree, [] => copyDirectory tree (plainString ("/.svn/" ++ shelves))
  | tree, name :: above => do
    let area := stringOf (name :: above) ++ "/.svn"
    let copied ← copyEntry tree area
    copyShelves shelves (← copyDirectory copied (area ++ "/" ++ plainString shelves)) above

/-- The environment variables of the settings that are set. -/
def settingsEnvironment : IO (List (Text × Text)) := do
  let fields : List SettingsField :=
    [.debug, .diffstatProgram, .format, .level, .shelvesDirectory, .program]
  let found ← fields.mapM fun field => do
    let name := (plainString field.variableName).toUpper
    pure ((← IO.getEnv name).map fun value => (Text.ofString name, Text.ofString value))
  pure (found.filterMap id)

/-- A variable as the system lists it: the name, an equals sign and the value. -/
def variableOf (entry : Text) : Text × Text :=
  (entry.takeWhile fun glyph => !glyph.isChar '=',
    (entry.dropWhile fun glyph => !glyph.isChar '=').drop 1)

/-- The environment: all of it where the system lists it, or else what the settings
ask for. -/
def environment : IO (List (Text × Text)) := do
  try
    let listed ← IO.FS.readBinFile "/proc/self/environ"
    let entries := (Utf8.decodeEscaped listed.toList).splitOn '\x00'
    pure ((entries.filter fun entry => !entry.isEmpty).map variableOf)
  catch _ => settingsEnvironment

/-- The home directory of the user; those of other accounts are not looked up. -/
def homes : IO Homes := do
  pure ⟨Text.ofString ((← IO.getEnv "HOME").getD "/"), .empty⟩

/-- The machine for a run in a directory. -/
def machineFor (directory : String) (homes : Homes) (environment : List (Text × Text))
    (arguments : List String) : IO Machine := do
  let now ← Std.Time.Timestamp.now
  let place := locationOf directory
  let start ← copyEntry (FileTree.empty.putDirectories place) (directory ++ "/.env")
  let shelves := match Settings.load start place homes environment none with
    | .ok ⟨_, .ok settings⟩ => settings.shelvesDirectory
    | _ => []
  let withShelves ← copyShelves shelves start place
  let tree ← arguments.foldlM (fun tree argument =>
    copyEntry tree (plainString
      (Path.ofText directory / Path.ofText (Text.ofString argument)).normalize.toText)) withShelves
  pure ⟨tree, place, instantOf (now.toNanosecondsSinceUnixEpoch.toInt / 1000), .empty⟩

/-- Carry one change over to the disk. -/
def carryOut : Change → IO Unit
  | .added location .directory => IO.FS.createDirAll (stringOf location)
  | .added location (.file content _) =>
    IO.FS.writeBinFile (stringOf location) ⟨content.toArray⟩
  | .altered location (.file content _) =>
    IO.FS.writeBinFile (stringOf location) ⟨content.toArray⟩
  | .added _ (.link _) => pure ()
  | .altered _ _ => pure ()
  | .removed location => IO.FS.removeFile (stringOf location)

/-- Write a text to a stream as bytes. -/
def write (stream : IO.FS.Stream) (text : Text) : IO Unit := do
  stream.write ⟨(Utf8.encode text).toArray⟩
  stream.flush

end Executable

end PatchShelf

open PatchShelf in
/-- Run the command line of the process. -/
def main (arguments : List String) : IO UInt32 := do
  let directory ← IO.currentDir
  let homes ← Executable.homes
  let environment ← Executable.environment
  let machine ← Executable.machineFor directory.toString homes environment arguments
  let report :=
    CommandLine.run .strict homes environment (arguments.map Text.ofString) machine
  (FileTree.changes [] machine.tree report.machine.tree).forM Executable.carryOut
  Executable.write (← IO.getStdout) report.out
  let errors ← IO.getStderr
  Executable.write errors (report.err machine.clock.stamp)
  match report.ending with
  | .broken below => Executable.write errors (below.message ++ "\n")
  | _ => pure ()
  pure (UInt32.ofNat (report.ending.status?.getD 1))
