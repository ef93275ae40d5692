/-
Module: PatchShelf.FileTree.Access
Purpose: Reading and changing a file tree by path.
Main exports:
  FileTree.isDirectory, FileTree.isFile, FileTree.isPresent, FileTree.status,
  FileTree.read, FileTree.write, FileTree.unlink, FileTree.makeDirectory
-/
import PatchShelf.FileTree.Walk

/-!
Each operation takes the directory in which relative paths are read.  Questions
about the kind of an entry follow links and are answered with no when nothing
can be reached; only a name that is too long is refused.  Operations on content
say why the system refuses them.
-/

namespace PatchShelf

/-- What is recorded about a file: its length in bytes and when it was modified. -/
structure FileStatus where
  size : Nat
  modified : FileTime
deriving Repr, DecidableEq

/-- The length that is recorded for a directory. -/
def directorySize : Nat := 4096

/-- The status of an entry. -/
def Entry.status : Entry → FileStatus
  | directory => ⟨directorySize, .epoch⟩
  | file content modified => ⟨content.length, modified⟩
  | link target => ⟨target.length, .epoch⟩

/-- Does an error only say that a path leads nowhere? -/
def Errno.leadsNowhere : Errno → Bool
  | notFound => true
  | notDirectory => true
  | tooManyLinks => true
  | denied => false
  | alreadyExists => false
  | isDirectory => false
  | nameTooLong => false
  | valueTooLarge => false

namespace FileTree

/-- The entry that a path leads to, if it leads anywhere. -/
def probe (tree : FileTree) (base : Location) (path : Path) : Except Fault (Option Entry) :=
  match tree.locate base .target path with
  | .ok (.found _ entry) => .ok (some entry)
  | .ok (.missing _ _) => .ok none
  | .error (.system errno shown) =>
    if errno.leadsNowhere then .ok none else .error (.system errno shown)
  | .error _ => .ok none

/-- Does the path lead to an entry? -/
def isPresent (tree : FileTree) (base : Location) (path : Path) : Except Fault Bool :=
  (tree.probe base path).map Option.isSome

/-- Does the path lead to a directory? -/
def isDirectory (tree : FileTree) (base : Location) (path : Path) : Except Fault Bool :=
  (tree.probe base path).map fun entry => entry.any Entry.isDirectory

/-- Does the path lead to a regular file? -/
def isFile (tree : FileTree) (base : Location) (path : Path) : Except Fault Bool :=
  (tree.probe base path).map fun entry => entry.any Entry.isFile

/-- Is the path of a location longer than the system takes?  Within an origin it is spelled
from there, and else from the root. -/
def isOverlong (origin : Option Location) (location : Location) : Bool :=
  let path : Path := match origin with
    | none => location.toPath
    | some base =>
      ⟨.relative, (location.take (location.length - base.length)).reverse.map Utf8.decodeEscaped⟩
  longestPath < (Utf8.encode path.toText).length

/-- Where names lead from a directory if none of them is looked at. -/
def spell (directory : Location) (names : List FileName) : Location :=
  names.foldl (fun place name =>
    if staysHere name then place else if name = upName then place.tail else name :: place) directory

/-- A location in which names are spelled out because the path of a link among them is overlong:
the system does not tell of such a link that it is one. -/
def unread? (tree : FileTree) :
    (links : Nat) → (origin : Option Location) → (directory : Location) → List FileName →
      Option Location
  | links, origin, directory, names =>
    match tree.advance .target directory names with
    | .error _ => none
    | .ok (.ended _) => none
    | .ok (.linked place target rest) =>
      let link := (names.take (names.length - rest.length)).getLastD [] :: place
      if isOverlong origin link then some (spell link rest)
      else
        match links with
        | 0 => none
        | fewer + 1 =>
          let origin := if target.head? = some 0x2F then none else origin
          tree.unread? fewer origin (startOf place target) (splitNames target ++ rest)

/-- The overlong path of which a path is taken to be another spelling, though a link is in it. -/
def misread? (tree : FileTree) (base : Location) (path : Path) : Option Path :=
  let bytes := Utf8.encode path.toText
  let origin := if path.isAbsolute then none else some base
  let shown := tree.unread? mostLinks origin (startOf base bytes) (splitNames bytes)
  (shown.filter (isOverlong none)).map Location.toPath

/-- The location that a path leads to.  A relative path needs a directory that is not
lost, and no link may stand so deep that its path is overlong. -/
def resolve (tree : FileTree) (base : Location) (path : Path) : Except Fault Location :=
  if base.isLost && !path.isAbsolute then .error .lostDirectory
  else
    match tree.misread? base path with
    | some shown => .error (.system .nameTooLong shown.toText)
    | none =>
      match tree.locate base .target path with
      | .ok (.found location _) => .ok location
      | .ok (.missing _ _) => .error (.system .notFound path.toText)
      | .error fault => .error fault

/-- The status of the entry that a path leads to. -/
def status (tree : FileTree) (base : Location) (path : Path) : Except Fault FileStatus :=
  match tree.locate base .target path with
  | .ok (.found _ entry) => .ok entry.status
  | .ok (.missing _ _) => .error (.system .notFound path.toText)
  | .error fault => .error fault

/-- The content of the file that a path leads to. -/
def read (tree : FileTree) (base : Location) (path : Path) : Except Fault Bytes :=
  match tree.locate base .target path with
  | .ok (.found _ (.file content _)) => .ok content
  | .ok (.found _ _) => .error (.system .isDirectory path.toText)
  | .ok (.missing _ _) => .error (.system .notFound path.toText)
  | .error fault => .error fault

/-- Write the whole content of a file at a moment, making the file if it is missing. -/
def write (tree : FileTree) (base : Location) (moment : FileTime) (path : Path)
    (content : Bytes) : Except Fault FileTree :=
  match tree.locate base .writing path with
  | .ok (.found location (.file _ _)) => .ok (tree.put location (.file content moment))
  | .ok (.found _ _) => .error (.system .isDirectory path.toText)
  | .ok (.missing directory name) =>
    .ok (tree.put (name :: directory) (.file content moment))
  | .error fault => .error fault

/-- Take the file or link at a path away. -/
def unlink (tree : FileTree) (base : Location) (path : Path) : Except Fault FileTree :=
  match tree.locate base .entry path with
  | .ok (.found _ .directory) => .error (.system .isDirectory path.toText)
  | .ok (.found location _) => .ok (tree.remove location)
  | .ok (.missing _ _) => .error (.system .notFound path.toText)
  | .error fault => .error fault

/-- Make a directory in a directory that is there. -/
def makeDirectory (tree : FileTree) (base : Location) (path : Path) : Except Fault FileTree :=
  match tree.locate base .entry path with
  | .ok (.found _ _) => .error (.system .alreadyExists path.toText)
  | .ok (.missing directory name) => .ok (tree.put (name :: directory) .directory)
  | .error fault => .error fault

/-- The names in the directory that a path leads to. -/
def namesAt (tree : FileTree) (base : Location) (path : Path) : Except Fault (List FileName) :=
  match tree.locate base .target path with
  | .ok (.found location .directory) => .ok (tree.names location)
  | .ok (.found _ _) => .error (.system .notDirectory path.toText)
  | .ok (.missing _ _) => .error (.system .notFound path.toText)
  | .error fault => .error fault

/-- Take the entry at a path and everything below it away, if it is there. -/
def removeTree (tree : FileTree) (base : Location) (path : Path) : FileTree :=
  match tree.locate base .entry path with
  | .ok (.found location _) => tree.removeBelow location
  | .ok (.missing _ _) => tree
  | .error _ => tree

end FileTree

end PatchShelf
