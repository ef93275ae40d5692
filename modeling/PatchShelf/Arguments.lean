/-
Module: PatchShelf.Arguments
Purpose: Shelf names and targets among the positional arguments.
Main exports:
  Argument, Argument.toUtf8, Arguments.checkShelfName, Arguments.takeName,
  Arguments.requireNone, Arguments.collectTargets, Arguments.checkLocal,
  Arguments.stripPeg, Arguments.absolutize
-/
import PatchShelf.Failure
import PatchShelf.Path
import PatchShelf.Text.Blank
import PatchShelf.Text.Utf8

/-!
The arguments that are left after option parsing are a shelf name and targets.
A name must fit into one file name.  Targets that name the administrative area
are dropped, URLs are refused, a revision behind the last `@` of the last
component is cut off, and what remains is read in the working directory and
brought into normal form.
-/

namespace PatchShelf

/-- A positional argument: text, or bytes that have not been decoded yet. -/
inductive Argument where
  | text (content : Text)
  | bytes (content : Bytes)
deriving Repr, DecidableEq, Inhabited

namespace Arguments

/-- The last components that targets must not have. -/
def reservedNames : List Text := [".svn"]

/-- The error code for targets that are not local paths. -/
def illegalTargetCode : Text := "E200009"

/-- The characters that no shelf name holds. -/
def forbiddenInNames : List Char := ['/', '\\', '\x00']

/-- The text of an argument, unless it is not valid UTF-8. -/
def toUtf8 : Argument → Except Failure Text
  | .bytes content =>
    match Utf8.decode content with
    | .ok text => .ok text
    | .error _ => .error (.plain .encoding)
  | .text content =>
    if content.hasRaw then .error (.plain .encoding) else .ok content

/-- Can a text that is not blank name a shelf? -/
def fitsFileName (name : Text) : Bool :=
  !(name == Path.here || name == Path.up || forbiddenInNames.any name.holds)

/-- Let a shelf name pass, or say what is wrong with it. -/
def checkShelfName (name : Text) : Except Failure Text :=
  if name.isBlank then .error (.saying .argumentShape "Shelf name must not be empty")
  else if fitsFileName name then .ok name
  else .error (.saying .argumentShape ("'" ++ name ++ "' is not a valid shelf name"))

/-- Split the first argument off as a shelf name. -/
def takeName : List Argument → Except Failure (Text × List Argument)
  | [] => .error (.saying .argumentShape "Not enough arguments provided")
  | first :: rest => do
    let text ← toUtf8 first
    let name ← checkShelfName text
    pure (name, rest)

/-- Refuse arguments that nothing asks for. -/
def requireNone (arguments : List Argument) : Except Failure Unit :=
  if arguments.isEmpty then .ok () else .error (.plain .argumentShape)

/-- Targets, and the ones among them that were dropped. -/
structure TargetSelection where
  targets : List Text
  skipped : List Text
deriving Repr, DecidableEq, Inhabited

/-- Is the last component of a target a reserved name? -/
def isReserved (target : Text) : Bool :=
  reservedNames.contains (Path.lastComponent target)

/-- The targets among arguments, reserved ones set apart. -/
def collectTargets : List Argument → Except Failure TargetSelection
  | [] => .ok ⟨[], []⟩
  | first :: rest => do
    let target ← toUtf8 first
    let selection ← collectTargets rest
    if isReserved target then
      pure ⟨selection.targets, target :: selection.skipped⟩
    else pure ⟨target :: selection.targets, selection.skipped⟩

/-- Does a glyph stand in URL schemes after their first letter? -/
def isSchemeGlyph : Glyph → Bool
  | .char scalar => scalar.isAlphanum || scalar == '+' || scalar == '.' || scalar == '-'
  | .raw _ => false

/-- Does a target begin with a URL scheme and `://`? -/
def isUrl : Text → Bool
  | .char first :: rest =>
    first.isAlpha && Text.beginsWith (rest.dropWhile isSchemeGlyph) "://"
  | _ => false

/-- Refuse the first URL among targets. -/
def checkLocal : List Text → Except Failure Unit
  | [] => .ok ()
  | target :: rest =>
    if isUrl target then
      .error (.ofKind .badTarget (some ("'" ++ target ++ "' is not a local path"))
        (some illegalTargetCode))
    else checkLocal rest

/-- A target without the last `@` of its last component and what follows it. -/
def stripPeg (target : Text) : Text :=
  let backwards := target.reverse
  let component := backwards.takeWhile fun glyph => !glyph.isChar '/'
  let above := backwards.dropWhile fun glyph => !glyph.isChar '/'
  match component.dropWhile fun glyph => !glyph.isChar '@' with
  | [] => target
  | _ :: kept => (kept ++ above).reverse

/-- The normal form of a target that is read in a root directory. -/
def absolutizeOne (root target : Text) : Text :=
  (Path.ofText root / Path.ofText target).normalize.toText

/-- The normal forms of targets that are read in a root directory. -/
def absolutize (targets : List Text) (root : Text) : List Text :=
  targets.map (absolutizeOne root)

end Arguments

end PatchShelf
