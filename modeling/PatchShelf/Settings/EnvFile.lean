/-
Module: PatchShelf.Settings.EnvFile
Purpose: Files that bind variables, one statement a line.
Main exports:
  EnvFile, EnvFile.Statement, EnvFile.readStatement, EnvFile.statements,
  EnvFile.interpolate, EnvFile.ofText
-/
import PatchShelf.Dictionary
import PatchShelf.Text.Blank

/-!
A statement is `NAME=value`, with an optional `export` in front; a name without
an equals sign binds no value.  A value in quotation marks may hold anything, with
backslash escapes; a bare value ends before a comment, which is a `#` behind a
blank, and loses the blanks at its ends.  A line that is no statement is passed
over and its number kept.  Of two bindings of one name the later counts.

A value may refer to variables, as `${NAME}` or, with a text for a variable that
is not set, as `${NAME:-text}`.  The bindings above a statement count before the
environment.

Lines end with line feeds here; other line ends are to be made uniform before.
-/

namespace PatchShelf

/-- What a file of variables says: the value of each name, if it has one, and the
lines at which statements begin that cannot be read. -/
structure EnvFile where
  bound : Dictionary Text (Option Text)
  unreadable : List Nat
deriving Repr, DecidableEq

namespace EnvFile

/-- A file that says nothing. -/
def empty : EnvFile := ⟨.empty, []⟩

/-- One statement of a file. -/
inductive Statement where
  | binding (name : Text) (value : Option Text)
  | comment
  | unreadable
deriving Repr, DecidableEq, Inhabited

/-- A part that was read, and the text behind it. -/
abbrev Read (α : Type) : Type := α × Text

/-- The mark that may stand at the very front of a file. -/
def byteOrderMark : Glyph := .char '\ufeff'

/-- The text behind a byte order mark, if one stands at the front. -/
def skipMark (text : Text) : Text :=
  if text.head? = some byteOrderMark then text.tail else text

/-- White space other than a line end. -/
def isInlineBlank (glyph : Glyph) : Bool :=
  glyph.isBlank && !glyph.isChar '\n'

/-- The text behind leading blanks of the line. -/
def skipInline (text : Text) : Text :=
  text.dropWhile isInlineBlank

/-- The text behind the rest of the line and its end. -/
def skipLine (text : Text) : Text :=
  (text.dropWhile fun glyph => !glyph.isChar '\n').drop 1

/-- The word that may stand in front of a name. -/
def exportWord : Text := "export"

/-- The text behind a leading `export` and its blanks. -/
def skipExport (text : Text) : Text :=
  let behind : Text := text.drop exportWord.length
  if text.beginsWith exportWord && behind.head?.any isInlineBlank then skipInline behind
  else text

/-- Does a glyph belong to a bare name? -/
def isNameGlyph (glyph : Glyph) : Bool :=
  !(glyph.isChar '=' || glyph.isChar '#' || glyph.isBlank)

/-- The name at the front; a comment has none. -/
def readName (text : Text) : Option (Read (Option Text)) :=
  match text with
  | .char '#' :: _ => some (none, text)
  | .char '\'' :: rest =>
    let name := rest.takeWhile fun glyph => !glyph.isChar '\''
    match rest.dropWhile fun glyph => !glyph.isChar '\'' with
    | _ :: behind => if name = [] then none else some (some name, behind)
    | [] => none
  | _ =>
    let name := text.takeWhile isNameGlyph
    if name = [] then none else some (some name, text.dropWhile isNameGlyph)

/-- The quoted text behind an opening mark: it ends at the first such mark that no
backslash escapes. -/
def readQuoted (mark : Char) : Text → Option (Read Text)
  | [] => none
  | first :: rest =>
    if first.isChar mark then some ([], rest)
    else if first.isChar '\\' then
      match rest with
      | [] => none
      | second :: behind =>
        (readQuoted mark behind).map fun (value, left) => (first :: second :: value, left)
    else (readQuoted mark rest).map fun (value, left) => (first :: value, left)

/-- What a backslash and a glyph mean between single quotes. -/
def singleEscape : Glyph → Option Char
  | .char '\\' => some '\\'
  | .char '\'' => some '\''
  | _ => none

/-- What a backslash and a glyph mean between double quotes. -/
def doubleEscape : Glyph → Option Char
  | .char '\\' => some '\\'
  | .char '\'' => some '\''
  | .char '"' => some '"'
  | .char 'a' => some '\x07'
  | .char 'b' => some '\x08'
  | .char 'f' => some '\x0c'
  | .char 'n' => some '\n'
  | .char 'r' => some '\r'
  | .char 't' => some '\t'
  | .char 'v' => some '\x0b'
  | _ => none

/-- Replace the escapes that have a meaning. -/
def unescape (meaning : Glyph → Option Char) : Text → Text
  | [] => []
  | [only] => [only]
  | first :: second :: rest =>
    if first.isChar '\\' then
      match meaning second with
      | some scalar => .char scalar :: unescape meaning rest
      | none => first :: unescape meaning (second :: rest)
    else first :: unescape meaning (second :: rest)

/-- A bare value up to the blanks in front of a comment. -/
def cutComment : Text → Text
  | [] => []
  | glyph :: rest =>
    if glyph.isBlank && (rest.dropWhile Glyph.isBlank).head? == some (.char '#') then []
    else glyph :: cutComment rest

/-- The bare value at the front, blanks before it included. -/
def readBare (text : Text) : Read Text :=
  ((cutComment (text.takeWhile fun glyph => !glyph.isChar '\n')).strip,
    text.dropWhile fun glyph => !glyph.isChar '\n')

/-- The value behind an equals sign. -/
def readValue (text : Text) : Option (Read Text) :=
  match skipInline text with
  | .char '\'' :: rest =>
    (readQuoted '\'' rest).map fun (value, left) => (unescape singleEscape value, left)
  | .char '"' :: rest =>
    (readQuoted '"' rest).map fun (value, left) => (unescape doubleEscape value, left)
  | _ => some (readBare text)

/-- The text behind a comment, if one stands at the front. -/
def skipComment (text : Text) : Text :=
  match skipInline text with
  | .char '#' :: rest => rest.dropWhile fun glyph => !glyph.isChar '\n'
  | _ => text

/-- What stands behind the name of a binding: its value, or nothing. -/
def readAssignment (text : Text) : Option (Read (Option Text)) :=
  match skipInline text with
  | .char '=' :: rest => (readValue rest).map fun (value, left) => (some value, left)
  | left => some (none, left)

/-- The statement that a name and a value make; without a name it is a comment. -/
def statementOf (name : Option Text) (value : Option Text) : Statement :=
  match name with
  | some known => .binding known value
  | none => .comment

/-- The statement at the front of a text that does not begin with a blank.  When
there is none, the line in which reading stopped is passed over. -/
def readStatement (text : Text) : Read Statement :=
  let start := skipExport text
  match readName start with
  | none => (.unreadable, skipLine start)
  | some (name, behind) =>
    match readAssignment behind with
    | none => (.unreadable, skipLine behind)
    | some (value, left) =>
      match skipInline (skipComment left) with
      | [] => (statementOf name value, [])
      | .char '\n' :: rest => (statementOf name value, rest)
      | other => (.unreadable, skipLine other)

/-- The number of line ends in a text. -/
def lineEnds (text : Text) : Nat :=
  text.countP (·.isChar '\n')

/-- The statements of a text whose first line has a number, each with the line at
which it was looked for: blank lines in front of a statement belong to it. -/
def statements (line : Nat) (text : Text) : List (Nat × Statement) :=
  match text.dropWhile Glyph.isBlank with
  | [] => []
  | glyph :: behind =>
    let statement := readStatement (glyph :: behind)
    if _shorter : statement.2.length < text.length then
      (line, statement.1) ::
        statements (line + (lineEnds text - lineEnds statement.2)) statement.2
    else [(line, statement.1)]
termination_by text.length

/-- A reference to a variable: its name and what stands for it when it is not set. -/
structure Reference where
  name : Text
  otherwise : Text
deriving Repr, DecidableEq, Inhabited

/-- Does a glyph belong to the name in a reference? -/
def isReferenceGlyph (glyph : Glyph) : Bool :=
  !(glyph.isChar '}' || glyph.isChar ':')

/-- The reference at the front, if there is one. -/
def readReference : Text → Option (Read Reference)
  | .char '$' :: .char '{' :: rest =>
    let name := rest.takeWhile isReferenceGlyph
    match rest.dropWhile isReferenceGlyph with
    | .char '}' :: behind => some (⟨name, []⟩, behind)
    | .char ':' :: .char '-' :: more =>
      match more.dropWhile fun glyph => !glyph.isChar '}' with
      | _ :: behind => some (⟨name, more.takeWhile fun glyph => !glyph.isChar '}'⟩, behind)
      | [] => none
    | _ => none
  | _ => none

theorem length_dropWhile_le (test : Glyph → Bool) (text : Text) :
    (text.dropWhile test).length ≤ text.length :=
  (List.dropWhile_suffix test).length_le

theorem readReference_shorter {text behind : Text} {reference : Reference}
    (found : readReference text = some (reference, behind)) : behind.length < text.length := by
  unfold readReference at found
  split at found
  · rename_i rest
    have short := length_dropWhile_le isReferenceGlyph rest
    split at found
    · rename_i left same
      simp only [Option.some.injEq, Prod.mk.injEq] at found
      rw [same] at short
      simp only [List.length_cons] at short ⊢
      rw [← found.2]
      omega
    · rename_i more same
      have shorter := length_dropWhile_le (fun glyph => !glyph.isChar '}') more
      rw [same] at short
      split at found
      · rename_i left last
        simp only [Option.some.injEq, Prod.mk.injEq] at found
        rw [last] at shorter
        simp only [List.length_cons] at short shorter ⊢
        rw [← found.2]
        omega
      · simp at found
    · simp at found
  · simp at found

/-- A text with the values of its references in their places. -/
def interpolate (valueOf : Reference → Text) (text : Text) : Text :=
  match _found : readReference text with
  | some (reference, behind) => valueOf reference ++ interpolate valueOf behind
  | none =>
    match text with
    | [] => []
    | glyph :: rest => glyph :: interpolate valueOf rest
termination_by text.length
decreasing_by
  · exact readReference_shorter _found
  · exact Nat.lt_succ_self _

/-- What a reference stands for: the value that was bound to the name, nothing if it
was bound without one, or else the value of the environment. -/
def valueOf (environment : Dictionary Text Text) (bound : Dictionary Text (Option Text))
    (reference : Reference) : Text :=
  match bound.get? reference.name with
  | some value => value.getD []
  | none => (environment.get? reference.name).getD reference.otherwise

/-- Add the bindings of statements to what is bound before them. -/
def bindAll (environment : Dictionary Text Text) :
    List Statement → Dictionary Text (Option Text) → Dictionary Text (Option Text)
  | [], bound => bound
  | .binding name value :: rest, bound =>
    bindAll environment rest
      (bound.insert name (value.map (interpolate (valueOf environment bound))))
  | .comment :: rest, bound => bindAll environment rest bound
  | .unreadable :: rest, bound => bindAll environment rest bound

/-- What a text says in an environment. -/
def ofText (environment : Dictionary Text Text) (text : Text) : EnvFile :=
  let found := statements 1 (skipMark text)
  ⟨bindAll environment (found.map Prod.snd) .empty,
    (found.filter fun pair => pair.2 == .unreadable).map Prod.fst⟩

end EnvFile

end PatchShelf
