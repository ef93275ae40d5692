/-
Module: PatchShelf.FileTree.Walk
Purpose: Following a path through a file tree, links included.
Main exports:
  Spot, Stride, WalkAim, FileTree.advance, FileTree.walk, FileTree.locate,
  FileTree.locateText
-/
import PatchShelf.FileTree.Basic
import PatchShelf.Path
import PatchShelf.Failure

/-!
A walk starts in a directory and takes one name after the other.  It ends at
an entry, or beside the place where a missing entry would stand.  A link in the
way is replaced by its target, at most forty times in one walk; a link at the
end is followed only when that is asked for.  Names are byte strings of at most
255 bytes, and whole paths of at most 4095.

Slashes at the end of a path or of a link target leave empty names behind the
last one.  They ask for a directory, so nothing that is to be written may have
them.
-/

namespace PatchShelf

/-- Where a walk ends: at an entry, or in the directory that lacks the last name. -/
inductive Spot where
  | found (location : Location) (entry : Entry)
  | missing (directory : Location) (name : FileName)
deriving Repr, DecidableEq

/-- How far a walk gets without following a link: to its end, or to a link in a
directory with some names left to walk. -/
inductive Stride where
  | ended (spot : Spot)
  | linked (directory : Location) (target : Bytes) (rest : List FileName)
deriving Repr, DecidableEq

/-- What a walk is for: the entry that bears the last name, be it a link; what
the path leads to; or a file that is to be written and made if it is missing. -/
inductive WalkAim where
  | entry
  | target
  | writing
deriving Repr, DecidableEq, Inhabited

namespace FileTree

/-- The name that means the directory itself. -/
def hereName : FileName := [0x2E]

/-- The name that means the parent directory. -/
def upName : FileName := [0x2E, 0x2E]

/-- The greatest length of a name, in bytes. -/
def longestName : Nat := 255

/-- The greatest length of a path, in bytes. -/
def longestPath : Nat := 4095

/-- The greatest number of links that one walk follows. -/
def mostLinks : Nat := 40

/-- Does a name mean the directory in which it is read? -/
def staysHere (name : FileName) : Bool :=
  name.isEmpty || name == hereName

/-- Do the names behind the last one ask for a directory? -/
def asksForDirectory (rest : List FileName) : Bool :=
  !rest.isEmpty && rest.all List.isEmpty

/-- Walk names from a directory until they end or a link comes in the way. -/
def advance (tree : FileTree) (aim : WalkAim) :
    (directory : Location) → List FileName → Except Errno Stride
  | directory, [] => .ok (.ended (.found directory .directory))
  | directory, name :: rest =>
    if staysHere name then tree.advance aim directory rest
    else if name = upName then tree.advance aim directory.tail rest
    else if aim = .writing ∧ asksForDirectory rest then .error .isDirectory
    else if longestName < name.length then .error .nameTooLong
    else
      match tree.get? (name :: directory) with
      | some .directory => tree.advance aim (name :: directory) rest
      | some (.file content modified) =>
        if rest = [] then .ok (.ended (.found (name :: directory) (.file content modified)))
        else .error .notDirectory
      | some (.link target) =>
        if rest = [] ∧ aim = .entry then
          .ok (.ended (.found (name :: directory) (.link target)))
        else .ok (.linked directory target rest)
      | none =>
        if rest = [] then .ok (.ended (.missing directory name)) else .error .notFound

/-- The fields of a byte string between its slashes. -/
def splitNames : Bytes → List FileName
  | [] => [[]]
  | byte :: rest =>
    if byte = 0x2F then [] :: splitNames rest
    else
      match splitNames rest with
      | [] => [[byte]]
      | name :: names => (byte :: name) :: names

/-- The directory in which the bytes of a path are read. -/
def startOf (directory : Location) (path : Bytes) : Location :=
  if path.head? = some 0x2F then [] else directory

/-- Walk names from a directory and follow at most `links` links. -/
def walk (tree : FileTree) (aim : WalkAim) :
    (links : Nat) → (directory : Location) → List FileName → Except Errno Spot
  | links, directory, names =>
    match tree.advance aim directory names with
    | .error errno => .error errno
    | .ok (.ended spot) => .ok spot
    | .ok (.linked place target rest) =>
      match links with
      | 0 => .error .tooManyLinks
      | fewer + 1 =>
        tree.walk aim fewer (startOf place target) (splitNames target ++ rest)

/-- Walk the bytes of a path that is read in the directory `base`. -/
def walkBytes (tree : FileTree) (base : Location) (aim : WalkAim) (path : Bytes) :
    Except Errno Spot :=
  if longestPath < path.length then .error .nameTooLong
  else if path = [] then .error .notFound
  else tree.walk aim mostLinks (startOf base path) (splitNames path)

/-- Walk a path that is given as a text, with every slash as it stands. -/
def locateText (tree : FileTree) (base : Location) (aim : WalkAim) (path : Text) :
    Except Fault Spot :=
  if path.holds '\x00' then .error .embeddedNull
  else (tree.walkBytes base aim (Utf8.encode path)).mapError fun errno => .system errno path

/-- Walk a path that is read in the directory `base`. -/
def locate (tree : FileTree) (base : Location) (aim : WalkAim) (path : Path) :
    Except Fault Spot :=
  tree.locateText base aim path.toText

end FileTree

/-- The path that names a location from the root. -/
def Location.toPath (location : Location) : Path :=
  ⟨.root, location.reverse.map Utf8.decodeEscaped⟩

/-- The location that an absolute path without links and `..` names. -/
def Location.ofPath (path : Path) : Location :=
  path.parts.reverse.map Utf8.encode

end PatchShelf
