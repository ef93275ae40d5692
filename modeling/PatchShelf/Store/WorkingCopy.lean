/-
Module: PatchShelf.Store.WorkingCopy
Purpose: A store that keeps shelves as patch files in a working copy.
Main exports:
  WorkingCopyStore, WorkingCopyStore.findRoot, WorkingCopyStore.shelfFile,
  WorkingCopyStore.store
-/
import PatchShelf.Arguments
import PatchShelf.Machine
import PatchShelf.Patch

/-!
A working copy is a directory with an administrative area `.svn`.  A shelf is the
file `NAME.patch` in a directory of that area, and a file `NAME.log` beside it
when there is a log message.  Patches are captured with `svn diff`, taken out of
the working copy with `svn revert` and put back with `svn patch`.
-/

namespace PatchShelf

/-- What a store in a working copy goes by: the name of the client program, and
the directory of shelves below the administrative area. -/
structure WorkingCopyStore where
  program : Text
  shelvesDirectory : Text
deriving Repr, DecidableEq, Inhabited

namespace WorkingCopyStore

open Machine (Operation)

/-- The name of the administrative area. -/
def adminName : Text := ".svn"

/-- The name under which the store writes to the log. -/
def logger : Text := "shelving.adapters.store.working_copy"

/-- Write to the log. -/
def log (level : Level) (message : Text) : Operation Unit :=
  Effect.emit (.logged ⟨level, logger, message⟩)

/-- Word what the system refuses as a failure of the store, after a cleanup. -/
def explainingAfter {α : Type} (cleanup : Operation Unit) (lead : Text) (task : Operation α) :
    Operation α := do
  match ← Effect.attempt task with
  | .ok result => pure result
  | .error (.fault (.system errno path)) =>
    cleanup
    Effect.fail (ShelfStore.failure (lead ++ ": " ++ (Fault.system errno path).message))
  | .error reason => Effect.stop reason

/-- Word what the system refuses as a failure of the store. -/
def explaining {α : Type} (lead : Text) (task : Operation α) : Operation α :=
  explainingAfter (pure ()) lead task

/-- The nearest location at or above a location that has an administrative area. -/
def nearestRoot (tree : FileTree) : Location → Except Fault (Option Location)
  | [] => do
    if ← tree.isDirectory [] (Location.toPath [] / Path.ofText adminName) then pure (some [])
    else pure none
  | name :: above => do
    if ← tree.isDirectory [] (Location.toPath (name :: above) / Path.ofText adminName) then
      pure (some (name :: above))
    else nearestRoot tree above

/-- The root of the working copy that a path lies in. -/
def findRoot (path : Text) : Operation Path := do
  let start := Path.ofText path
  if ← Machine.access (fun tree base => tree.isPresent base start) then
    let location ← Machine.access fun tree base => tree.resolve base start
    let inside ← Machine.access fun tree _ => tree.isDirectory [] location.toPath
    let root ← Machine.access fun tree _ =>
      nearestRoot tree (if inside then location else location.tail)
    match root with
    | some found => pure found.toPath
    | none => Effect.fail (ShelfStore.failure ("'" ++ path ++ "' is not a working copy"))
  else Effect.fail (ShelfStore.failure ("The path '" ++ path ++ "' does not exist"))

/-- The directory of shelves of a working copy. -/
def shelvesPath (settings : WorkingCopyStore) (root : Path) : Path :=
  root / Path.ofText adminName / Path.ofText settings.shelvesDirectory

/-- The path of one file of a shelf; names that lead out of the directory of
shelves are refused. -/
def shelfFile (directory : Path) (name suffix : Text) : Except Failure Path :=
  let path := directory / Path.ofText (name ++ suffix)
  if name.isBlank || name.holds '\x00' || path.parent != directory then
    .error (ShelfStore.failure ("'" ++ name ++ "' is not a valid shelf name"))
  else .ok path

/-- Program output as text: stray bytes are kept, line ends become line feeds. -/
def outputText (output : Bytes) : Text :=
  (Utf8.decodeEscaped output).uniformLines

/-- The failure that a client call with a bad exit status leads to. -/
def callFailure (settings : WorkingCopyStore) (subcommand : Text) (reply : Reply) : Failure :=
  let errors := (outputText reply.errors).strip
  if errors = [] then
    ShelfStore.failure ("'" ++ settings.program ++ " " ++ subcommand ++ "' exited with status "
      ++ Text.ofInt reply.status)
  else ShelfStore.failure errors

/-- Call the client in the root of the working copy and take its output. -/
def runClient (settings : WorkingCopyStore) (root : Path) (subcommand : Text)
    (arguments : List Text) : Operation Text := do
  log .debug ("Running " ++ Text.joinWith " " (settings.program :: subcommand :: arguments)
    ++ " in " ++ root.toText)
  let reply ← explaining ("Can't run '" ++ settings.program ++ "'")
    (Machine.call settings.program (Location.ofPath root) (subcommand :: arguments))
  if reply.status = 0 then pure (outputText reply.output)
  else Effect.fail (callFailure settings subcommand reply)

/-- The log message that is stored beside a shelf. -/
def readMessage (directory : Path) (name : Text) : Operation Text := do
  let path := directory / Path.ofText (name ++ Shelf.logSuffix)
  if ← Machine.access (fun tree base => tree.isFile base path) then
    let content ← Machine.access fun tree base => tree.read base path
    pure (Utf8.decodeReplaced content).uniformLines.strip
  else pure []

/-- Read the records of the patch files among some names. -/
def readRecords (directory : Path) : (names : List Text) → Shelves → Operation Shelves
  | [], shelves => pure shelves
  | key :: rest, shelves => do
    let path : Path := directory / ⟨.relative, [key]⟩
    let name : Text := key.take (key.length - Shelf.patchSuffix.length)
    if name.isBlank then
      log .warning ("Ignoring unnamed shelf file '" ++ path.toText ++ "'")
      readRecords directory rest shelves
    else
      let status ← Machine.access fun tree base => tree.status base path
      let modified ← Effect.ofAccess status.modified.read
      let message ← readMessage directory name
      let record ← Effect.ofAccess
        (ShelfRecord.make name path.toText modified status.size message)
      readRecords directory rest (shelves.insert key record)

/-- The records of all shelves. -/
def list (settings : WorkingCopyStore) (root : Text) : Operation Shelves := do
  let found ← findRoot root
  let directory := settings.shelvesPath found
  if ← Machine.access (fun tree base => tree.isDirectory base directory) then
    explaining ("Can't read shelves in '" ++ directory.toText ++ "'") do
      let names ← Machine.access fun tree base => tree.namesAt base directory
      let keys := (names.map Utf8.decodeEscaped).filter (·.endsWith Shelf.patchSuffix)
      readRecords directory keys .empty
  else pure .empty

/-- Write the files of a new shelf. -/
def writeFiles (directory patchPath logPath : Path) (patch : Bytes) (message : Option Bytes) :
    Operation Unit := do
  Machine.makeDirectories directory.anchor directory.parts.reverse
  Machine.writeFile patchPath patch
  match message with
  | some content => Machine.writeFile logPath content
  | none => pure ()

/-- The bytes of a log message, if there is one. -/
def encodeMessage (name : Text) : Option Text → Except Failure (Option Bytes)
  | none => .ok none
  | some message =>
    match Utf8.encodeValid message with
    | .ok bytes => .ok (some bytes)
    | .error refused =>
      .error (ShelfStore.failure ("Can't encode shelf '" ++ name ++ "': " ++ refused.message))

/-- The arguments that pick what is shelved. -/
def selection (request : CreateRequest) : List Text :=
  let members (changelist : Text) : List Text := ["--changelist", changelist]
  ("--depth" : Text) :: request.depth.label :: request.changelists.flatMap members
    ++ request.targets

/-- The end of a log line about shelved paths. -/
def countedPaths (paths : List Text) (name : Text) : Text :=
  Text.ofNat paths.length ++ " paths as '" ++ name ++ "'"

/-- Take what was shelved out of the working copy, unless it is to stay there. -/
def takeOut (settings : WorkingCopyStore) (root : Path) (request : CreateRequest)
    (patch : Text) : Operation Unit := do
  if request.keepLocal then pure ()
  else
    let _ ← settings.runClient root "revert" (selection request)
    Effect.emitAll (Activity.progress .reverted (Patch.paths patch))
  log .info ("Shelved " ++ countedPaths (Patch.paths patch) request.name)

/-- Save a captured patch, taking the patch file away again when the system refuses
to write, and take the changes out of the working copy. -/
def savePatch (settings : WorkingCopyStore) (root patchPath : Path) (request : CreateRequest)
    (patch : Text) : Operation Unit := do
  let directory := settings.shelvesPath root
  let message ← Effect.ofChecked (encodeMessage request.name request.logMessage)
  let logPath ← Effect.ofChecked (shelfFile directory request.name Shelf.logSuffix)
  explainingAfter (Machine.unlinkIfPresent patchPath)
    ("Can't write shelf '" ++ request.name ++ "'")
    (writeFiles directory patchPath logPath (Utf8.encode patch) message)
  settings.takeOut root request patch

/-- Capture the changes that a request selects, and save them unless this is a dry
run. -/
def capture (settings : WorkingCopyStore) (root patchPath : Path) (request : CreateRequest) :
    Operation Unit := do
  let patch ← settings.runClient root "diff" (selection request)
  if patch.isBlank then
    Effect.fail (ShelfStore.failure
      ("No local modifications could be found to shelve as '" ++ request.name ++ "'"))
  else
    Effect.emitAll (Activity.progress .shelved (Patch.paths patch))
    if request.dryRun then
      log .info ("Dry run: would shelve " ++ countedPaths (Patch.paths patch) request.name)
    else settings.savePatch root patchPath request patch

/-- The root of the working copy of the targets, and the path that the patch of a new
shelf is to have. -/
def prepare (settings : WorkingCopyStore) (request : CreateRequest) :
    Operation (Path × Path) := do
  match request.targets with
  | [] => Effect.stop (.fault .noTarget)
  | first :: _ =>
    let root ← findRoot first
    let patchPath ← Effect.ofChecked
      (shelfFile (settings.shelvesPath root) request.name Shelf.patchSuffix)
    if ← Machine.access (fun tree base => tree.isPresent base patchPath) then
      Effect.fail (ShelfStore.shelfExists request.name)
    else pure (root, patchPath)

/-- Capture the changes under the targets and shelve them. -/
def create (settings : WorkingCopyStore) (request : CreateRequest) : Operation Unit := do
  let (root, patchPath) ← settings.prepare request
  settings.capture root patchPath request

/-- The path of the patch file of a shelf that is there. -/
def existingPatch (directory : Path) (name : Text) : Operation Path := do
  let path ← Effect.ofChecked (shelfFile directory name Shelf.patchSuffix)
  if ← Machine.access (fun tree base => tree.isFile base path) then pure path
  else Effect.fail (ShelfStore.shelfNotFound name)

/-- Take the files of a shelf away. -/
def removeFiles (directory patchPath : Path) (name : Text) : Operation Unit := do
  Machine.alter fun tree base => tree.unlink base patchPath
  let logPath ← Effect.ofChecked (shelfFile directory name Shelf.logSuffix)
  Machine.unlinkIfPresent logPath

/-- Delete a shelf. -/
def delete (settings : WorkingCopyStore) (name root : Text) (dryRun : Bool) : Operation Unit := do
  let found ← findRoot root
  let directory := settings.shelvesPath found
  let patchPath ← existingPatch directory name
  if dryRun then pure ()
  else explaining ("Can't delete shelf '" ++ name ++ "'") (removeFiles directory patchPath name)
  Effect.emitAll (Activity.progress .deleted [patchPath.toText])

/-- Report a patch that the client has applied, and delete its shelf unless that is to
be kept. -/
def finishApply (settings : WorkingCopyStore) (root patchPath : Path) (name : Text)
    (kept : Bool) : Operation Unit := do
  let content ← explaining ("Can't read shelf '" ++ name ++ "'")
    (Machine.access fun tree base => tree.read base patchPath)
  Effect.emitAll (Activity.progress .patched (Patch.paths (outputText content)))
  if kept then pure ()
  else settings.delete name root.toText false

/-- The arguments with which the client is to apply a patch. -/
def patchArguments (patchPath : Path) (dryRun : Bool) : List Text :=
  patchPath.toText :: if dryRun then ["--dry-run"] else []

/-- Put a shelved change back into the working copy. -/
def apply (settings : WorkingCopyStore) (name root : Text) (keepLocal dryRun : Bool) :
    Operation Unit := do
  let found ← findRoot root
  let patchPath ← existingPatch (settings.shelvesPath found) name
  let _ ← settings.runClient found "patch" (patchArguments patchPath dryRun)
  settings.finishApply found patchPath name (dryRun || keepLocal)

/-- The operations of a store in a working copy. -/
def store (settings : WorkingCopyStore) : ShelfStore Machine :=
  ⟨settings.list, settings.create, settings.delete, settings.apply⟩

end WorkingCopyStore

end PatchShelf
