/-
Module: PatchShelf.Log.Vocabulary
Purpose: The names of the log that are no levels, and what they stand for.
Main exports:
  ThresholdMeaning, ThresholdMeaning.ofName?
-/
import PatchShelf.Text.Quoted

/-!
The vocabulary of the log holds more names than those of the levels.  Some stand
for numbers, which are thresholds like the numbers of the levels.  Others stand
for words, and the rest for things that can only be shown.  Names whose shown
form hangs on the machine are left out.
-/

namespace PatchShelf

/-- What a name that is no level stands for in the vocabulary of the log. -/
inductive ThresholdMeaning where
  | number (threshold : Nat)
  | word (content : Text)
  | thing (shown : Text)
deriving Repr, DecidableEq, Inhabited

namespace ThresholdMeaning

/-- The numbers of the levels and of their other names, from the most severe. -/
def levelNumbers : List (Text × Nat) :=
  [("CRITICAL", 50), ("FATAL", 50), ("ERROR", 40), ("WARN", 30), ("WARNING", 30), ("INFO", 20),
    ("DEBUG", 10), ("NOTSET", 0)]

/-- The names of the levels, each number with its first name. -/
def levelNames : List (Nat × Text) :=
  [(50, "CRITICAL"), (40, "ERROR"), (30, "WARNING"), (20, "INFO"), (10, "DEBUG"), (0, "NOTSET")]

/-- The names of switches; each one is on, which counts as one. -/
def switches : List Text :=
  ["logThreads", "logProcesses", "logMultiprocessing", "raiseExceptions"]

/-- The names of words. -/
def words : List (Text × Text) :=
  [("__name__", "logging"), ("__package__", "logging"), ("__status__", "production"),
    ("__version__", "0.5.1.2"), ("__date__", "07 February 2010"),
    ("BASIC_FORMAT", "%(levelname)s:%(name)s:%(message)s")]

/-- The names of classes that are shown by their own name. -/
def classNames : List Text :=
  ["BufferingFormatter", "FileHandler", "Filter", "Filterer", "Formatter", "Handler",
    "LogRecord", "Logger", "LoggerAdapter", "Manager", "NullHandler", "PercentStyle",
    "PlaceHolder", "RootLogger", "StrFormatStyle", "StreamHandler", "StringTemplateStyle",
    "_StderrHandler"]

/-- The names of functions that are shown by their own name. -/
def functionNames : List Text :=
  ["__dir__", "__format__", "__getstate__", "__reduce__", "__reduce_ex__", "__sizeof__"]

/-- The public names of things. -/
def publicThings : List Text :=
  ["BASIC_FORMAT", "BufferingFormatter", "CRITICAL", "DEBUG", "ERROR", "FATAL", "FileHandler",
    "Filter", "Formatter", "Handler", "INFO", "LogRecord", "Logger", "LoggerAdapter", "NOTSET",
    "NullHandler", "StreamHandler", "WARN", "WARNING"]

/-- The public names of functions, and those that came late. -/
def publicFunctions : List Text :=
  ["addLevelName", "basicConfig", "captureWarnings", "critical", "debug", "disable", "error",
    "exception", "fatal", "getLevelName", "getLogger", "getLoggerClass", "info", "log",
    "makeLogRecord", "setLoggerClass", "shutdown", "warn", "warning", "getLogRecordFactory",
    "setLogRecordFactory", "lastResort", "raiseExceptions", "getLevelNamesMapping"]

/-- A class of the log as it is shown. -/
def shownClass (name : Text) : Text :=
  "<class 'logging." ++ name ++ "'>"

/-- Shown pairs between braces. -/
def shownPairs (pairs : List (Text × Text)) : Text :=
  "\x7b" ++ Text.joinWith ", " (pairs.map fun pair => pair.1 ++ ": " ++ pair.2) ++ "\x7d"

/-- The styles of a line, by their mark, each with its class and its default line. -/
def shownStyles : Text :=
  shownPairs
    [("'%'", "(" ++ shownClass "PercentStyle" ++ ", '%(levelname)s:%(name)s:%(message)s')"),
      ("'\x7b'", "(" ++ shownClass "StrFormatStyle"
        ++ ", '\x7blevelname\x7d:\x7bname\x7d:\x7bmessage\x7d')"),
      ("'$'", "(" ++ shownClass "StringTemplateStyle"
        ++ ", '$\x7blevelname\x7d:$\x7bname\x7d:$\x7bmessage\x7d')")]

/-- The names of the other things, and how these are shown. -/
def things : List (Text × Text) :=
  [("root", "<RootLogger root (WARNING)>"), ("lastResort", "<_StderrHandler (WARNING)>"),
    ("_defaultLastResort", "<_StderrHandler (WARNING)>"),
    ("_loggerClass", shownClass "Logger"), ("_logRecordFactory", shownClass "LogRecord"),
    ("GenericAlias", "<class 'types.GenericAlias'>"), ("Template", "<class 'string.Template'>"),
    ("__class__", "<class 'module'>"), ("sys", "<module 'sys' (built-in)>"),
    ("time", "<module 'time' (built-in)>"), ("atexit", "<module 'atexit' (built-in)>"),
    ("os", "<module 'os' (frozen)>"), ("io", "<module 'io' (frozen)>"),
    ("__annotations__", shownPairs []), ("_STYLES", shownStyles),
    ("_levelToName", shownPairs
      (levelNames.map fun pair => (Text.ofNat pair.1, pair.2.quoted))),
    ("_nameToLevel", shownPairs
      (levelNumbers.map fun pair => (pair.1.quoted, Text.ofNat pair.2))),
    ("__all__", "[" ++ Text.joinWith ", " ((publicThings ++ publicFunctions).map Text.quoted)
      ++ "]")]

/-- The entry of a name in a list. -/
def entry? {α : Type} (name : Text) (entries : List (Text × α)) : Option α :=
  (entries.find? fun pair => pair.1 == name).map Prod.snd

/-- What a name is shown as, if it stands for a thing. -/
def thing? (name : Text) : Option Text :=
  if classNames.contains name then some (shownClass name)
  else if functionNames.contains name then some ("<built-in function " ++ name ++ ">")
  else entry? name things

/-- The meaning of a name, if it belongs to the vocabulary. -/
def ofName? (name : Text) : Option ThresholdMeaning :=
  if switches.contains name then some (.number 1)
  else
    match entry? name levelNumbers, entry? name words with
    | some threshold, _ => some (.number threshold)
    | none, some content => some (.word content)
    | none, none => (thing? name).map .thing

end ThresholdMeaning

end PatchShelf
