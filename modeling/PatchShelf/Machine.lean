/-
Module: PatchShelf.Machine
Purpose: A machine with a file tree, a working directory, a clock and programs.
Main exports:
  Reply, Program, Machine, Machine.directoryText?, Machine.access,
  Machine.alter, Machine.findProgram, Machine.call, Machine.makeDirectories,
  Machine.unlinkIfPresent
-/
import PatchShelf.FileTree.Access
import PatchShelf.Store

/-!
Operations on a machine see its files through paths, which are read in the
working directory.  A program answers a call with an exit status, two byte
strings and a change of the file tree.  Programs are scripted by the replies that
they will give; after the last of these a program succeeds and says nothing.

A program can take the working directory away.  It is lost from then on, even
when a directory of its name is made later: nothing is found in it, though the
way up is still open, and a program that is called in it fails.
-/

namespace PatchShelf

/-- What a program does when it is called. -/
structure Reply where
  status : Int
  output : Bytes
  errors : Bytes
  change : FileTree → FileTree

/-- Success without a word. -/
def Reply.silent : Reply := ⟨0, [], [], id⟩

/-- Failure without a word. -/
def Reply.failing : Reply := ⟨1, [], [], id⟩

/-- A program: whether it may be run, and its coming replies. -/
structure Program where
  executable : Bool
  replies : List Reply

/-- A machine. -/
structure Machine where
  tree : FileTree
  directory : Location
  clock : Instant
  programs : Dictionary Text Program

namespace Machine

/-- An operation on a machine. -/
abbrev Operation (α : Type) : Type := Effect Activity Machine α

/-- The path of the working directory, unless that is lost. -/
def directoryText? (machine : Machine) : Option Text :=
  if machine.directory.isLost then none else some machine.directory.toPath.toText

/-- The machine after a change of its files by a program. -/
def afterChange (machine : Machine) (change : FileTree → FileTree) : Machine :=
  { machine with
    tree := change machine.tree
    directory := (change machine.tree).markLost machine.directory }

/-- Look something up in the file tree, with the working directory at hand. -/
def access {α : Type} (query : FileTree → Location → Except Fault α) : Operation α := do
  let machine ← Effect.look
  Effect.ofAccess (query machine.tree machine.directory)

/-- Change the file tree, unless the system refuses. -/
def alter (step : FileTree → Location → Except Fault FileTree) : Operation Unit := do
  let tree ← access step
  Effect.change fun machine => { machine with tree := tree }

/-- Write a file. -/
def writeFile (path : Path) (content : Bytes) : Operation Unit := do
  let machine ← Effect.look
  alter fun tree base => tree.write base machine.clock path content

/-- Take a file or link away, if it is there. -/
def unlinkIfPresent (path : Path) : Operation Unit := do
  match ← Effect.attempt (alter fun tree base => tree.unlink base path) with
  | .ok _ => pure ()
  | .error (.fault (.system .notFound _)) => pure ()
  | .error reason => Effect.stop reason

/-- Let a refusal to make a directory pass when the directory is there. -/
def acceptDirectory (path : Path) (reason : Stop) : Operation Unit := do
  if ← access (fun tree base => tree.isDirectory base path) then pure ()
  else Effect.stop reason

/-- Make a directory, or let it be when it is there. -/
def makeDirectory (path : Path) : Operation Unit := do
  match ← Effect.attempt (alter fun tree base => tree.makeDirectory base path) with
  | .ok _ => pure ()
  | .error (.fault (.system .notFound shown)) =>
    Effect.stop (.fault (.system .notFound shown))
  | .error reason => acceptDirectory path reason

/-- Make a directory and the directories that are missing above it; `backwards`
lists the components of its path from the last. -/
def makeDirectories (anchor : Anchor) : (backwards : List Text) → Operation Unit
  | [] => makeDirectory ⟨anchor, []⟩
  | last :: above => do
    let path : Path := ⟨anchor, (last :: above).reverse⟩
    match ← Effect.attempt (alter fun tree base => tree.makeDirectory base path) with
    | .ok _ => pure ()
    | .error (.fault (.system .notFound _)) =>
      makeDirectories anchor above
      makeDirectory path
    | .error reason => acceptDirectory path reason

/-- Why the file at the path of a program is not run: none of the files in the tree of a
machine may be. -/
def refuseFile (machine : Machine) (directory : Location) (name : Text) : Fault :=
  match machine.tree.locateText directory .target name with
  | .ok (.found _ _) => .system .denied name
  | .ok (.missing _ _) => .system .notFound name
  | .error fault => fault

/-- Does a name mean the directory of programs itself, or the one above it? -/
def namesDirectory (name : Text) : Bool :=
  name.isEmpty || name == Path.here || name == Path.up

/-- Is the name of a program longer than the system takes?  A name with a slash is a path. -/
def isLongProgram (name : Text) : Bool :=
  (if name.holds '/' then FileTree.longestPath else FileTree.longestName) <
    (Utf8.encode name).length

/-- Does a name mean a file in the directory of the call or below it? -/
def isRelativeProgram (name : Text) : Bool :=
  name.holds '/' && !name.beginsWith "/"

/-- The program behind a name.  The programs of a machine stand apart from its file tree.  They
have a name in the directory of programs or an absolute path; any other path is that of a file.
Missing programs and ones without permission are refused. -/
def findProgram (machine : Machine) (directory : Location) (name : Text) :
    Except Fault Program :=
  if namesDirectory name then .error (.system .denied name)
  else if isLongProgram name then .error (.system .nameTooLong name)
  else if isRelativeProgram name then .error (machine.refuseFile directory name)
  else
    match machine.programs.get? name with
    | some program =>
      if program.executable then .ok program else .error (.system .denied name)
    | none =>
      if name.holds '/' then .error (machine.refuseFile directory name)
      else .error (.system .notFound name)

/-- Call a program in a directory. -/
def call (program : Text) (directory : Location) (arguments : List Text) : Operation Reply := do
  if (program :: arguments).any (·.holds '\x00') then Effect.stop (.fault .embeddedNull)
  else
    let machine ← Effect.look
    let found ← Effect.ofAccess (machine.findProgram directory program)
    if directory.isLost then pure .failing
    else
      let reply := found.replies.headD .silent
      Effect.emit (.ran ⟨program, directory.toPath.toText, arguments, machine.tree,
        reply.change machine.tree⟩)
      Effect.change fun machine =>
        { machine.afterChange reply.change with
          programs := machine.programs.insert program ⟨true, found.replies.tail⟩ }
      pure reply

end Machine

end PatchShelf
