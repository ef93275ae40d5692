/-
Module: PatchShelf.Failure
Purpose: What can end an operation early, and how it is worded.
Main exports:
  FailureKind, Failure, Failure.report, Errno, Fault, Stop
-/
import PatchShelf.Text.Quoted
import PatchShelf.Text.Terminal

/-!
An operation stops early for one of two reasons.  A `Failure` is part of the
program's own vocabulary: it has a kind, a client error code and a message, and
the command line reports it in one line.  A `Fault` comes from below, from the
operating system or a broken precondition, and reaches the caller as it is.
-/

namespace PatchShelf

/-- The kinds of failure that the program reports itself. -/
inductive FailureKind where
  | general
  | argumentShape
  | noShelves
  | badTarget
  | store
  | encoding
deriving Repr, DecidableEq, Inhabited

namespace FailureKind

/-- The name of a kind in diagnostics. -/
def label : FailureKind → Text
  | general => "ShelvingError"
  | argumentShape => "ArgumentShapeError"
  | noShelves => "NoShelvesFoundError"
  | badTarget => "TargetValidationError"
  | store => "StoreOperationError"
  | encoding => "EncodingError"

/-- The error code that failures of a kind carry unless they bring their own. -/
def code : FailureKind → Text
  | general => "E200000"
  | argumentShape => "E205000"
  | noShelves => "E205001"
  | badTarget => "E205001"
  | store => "E200000"
  | encoding => "E000022"

/-- The message of a failure for which nothing more is known. -/
def defaultMessage : FailureKind → Text
  | general => ""
  | argumentShape => "Try 'svn help' for more information"
  | noShelves => "No shelved changes found"
  | badTarget => "Not enough arguments provided"
  | store => ""
  | encoding => "Can't convert string to UTF-8"

end FailureKind

/-- A failure that the program reports. -/
structure Failure where
  kind : FailureKind
  code : Text
  message : Text
deriving Repr, DecidableEq, Inhabited

namespace Failure

/-- A failure of a kind; code and message default to those of the kind. -/
def ofKind (kind : FailureKind) (message code : Option Text) : Failure :=
  ⟨kind, code.getD kind.code, message.getD kind.defaultMessage⟩

/-- The plain failure of a kind. -/
def plain (kind : FailureKind) : Failure :=
  ofKind kind none none

/-- A failure with a message and the code of its kind. -/
def saying (kind : FailureKind) (message : Text) : Failure :=
  ofKind kind (some message) none

/-- A failure as diagnostics show it: the kind and the quoted message. -/
def diagnostic (failure : Failure) : Text :=
  failure.kind.label ++ "(" ++ failure.message.quoted ++ ")"

/-- The message for the user of a subcommand: a bare shape error points to the
help of that subcommand. -/
def advice (failure : Failure) (subcommand : Text) : Text :=
  if failure.kind = .argumentShape ∧ failure.message = FailureKind.argumentShape.defaultMessage then
    "Try 'svn help " ++ subcommand ++ "' for more information"
  else failure.message

/-- The line that reports a failure, free of terminal control sequences. -/
def report (failure : Failure) (subcommand : Text) : Text :=
  Text.withoutControls ("svn: " ++ failure.code ++ ": " ++ failure.advice subcommand)

end Failure

/-- The reasons for which the operating system refuses an operation. -/
inductive Errno where
  | notFound
  | denied
  | alreadyExists
  | notDirectory
  | isDirectory
  | nameTooLong
  | tooManyLinks
  | valueTooLarge
deriving Repr, DecidableEq, Inhabited

namespace Errno

/-- The number of an operating system error. -/
def number : Errno → Nat
  | notFound => 2
  | denied => 13
  | alreadyExists => 17
  | notDirectory => 20
  | isDirectory => 21
  | nameTooLong => 36
  | tooManyLinks => 40
  | valueTooLarge => 75

/-- The description of an operating system error. -/
def describe : Errno → Text
  | notFound => "No such file or directory"
  | denied => "Permission denied"
  | alreadyExists => "File exists"
  | notDirectory => "Not a directory"
  | isDirectory => "Is a directory"
  | nameTooLong => "File name too long"
  | tooManyLinks => "Too many levels of symbolic links"
  | valueTooLarge => "Value too large for defined data type"

end Errno

/-- What reaches the caller unworded by the program. -/
inductive Fault where
  | system (errno : Errno) (path : Text)
  | lostDirectory
  | unknownHome
  | embeddedNull
  | noTarget
  | blankName
  | negativeSize (size : Int)
  | dateOutOfRange
  | yearOutOfRange (year : Int)
  | timeOutOfRange
  | unknownLevel (word : Text)
  | noLevel (shown : Text)
  | unencodable (reason : Text)
deriving Repr, DecidableEq, Inhabited

namespace Fault

/-- The number and the description of an operating system error. -/
def systemText (errno : Errno) : Text :=
  "[Errno " ++ Text.ofNat errno.number ++ "] " ++ errno.describe

/-- The wording of a fault.  A value that is too large is told without a path. -/
def message : Fault → Text
  | system .valueTooLarge _ => systemText .valueTooLarge
  | system errno path => systemText errno ++ ": " ++ path.quoted
  | lostDirectory => systemText .notFound
  | unknownHome => "Could not determine home directory."
  | embeddedNull => "embedded null byte"
  | noTarget => "list index out of range"
  | blankName => "name must be a non-empty string"
  | negativeSize size => "size_bytes must be non-negative, got " ++ Text.ofInt size
  | dateOutOfRange => "date value out of range"
  | yearOutOfRange year => "year " ++ Text.ofInt year ++ " is out of range"
  | timeOutOfRange => "timestamp out of range for platform time_t"
  | unknownLevel word => "Unknown level: " ++ word.quoted
  | noLevel shown => "Level not an integer or a valid string: " ++ shown
  | unencodable reason => reason

end Fault

/-- Why an operation stopped early. -/
inductive Stop where
  | failure (failure : Failure)
  | fault (fault : Fault)
deriving Repr, DecidableEq, Inhabited

end PatchShelf
