/-
# PageDesign.Log -- structured records of what happens

A record is an event with fields.  It is kept if its level reaches that of the log.  Contexts
bind fields for all records inside them; a record's own fields win.
-/
import PageDesign.Choice
import PageDesign.Json.Basic

namespace PageDesign

/-! ## Levels -/

/-- How grave an event is. -/
inductive Severity where
  | debug
  | info
  | warning
  | error
  | critical
  deriving DecidableEq, Repr, Inhabited

instance : Choice Severity where
  all := [.debug, .info, .warning, .error, .critical]
  name
    | .debug => "debug"
    | .info => "info"
    | .warning => "warning"
    | .error => "error"
    | .critical => "critical"

/-- The level of a severity. -/
def Severity.level : Severity → Nat
  | debug => 10
  | info => 20
  | warning => 30
  | error => 40
  | critical => 50

namespace Log

/-- A character in upper case: a basic letter, or one of the others whose upper case is basic,
which are the dotless i, the long s, the sharp s and the ligatures. -/
def upperCase (c : Char) : List Char :=
  match c with
  | '\u0131' => ['I']
  | '\u017f' => ['S']
  | '\u00df' => ['S', 'S']
  | '\ufb00' => ['F', 'F']
  | '\ufb01' => ['F', 'I']
  | '\ufb02' => ['F', 'L']
  | '\ufb03' => ['F', 'F', 'I']
  | '\ufb04' => ['F', 'F', 'L']
  | '\ufb05' => ['S', 'T']
  | '\ufb06' => ['S', 'T']
  | c => [c.toUpper]

/-- Names that stand for formats of the log, so that they are no levels. -/
inductive LevelError where
  | unknown
  | notText
  deriving DecidableEq, Repr

/-- The words for a failure, which show the format that the name stands for. -/
def LevelError.message : LevelError → String
  | unknown => "Unknown level: '%(levelname)s:%(name)s:%(message)s'"
  | notText =>
    "Level not an integer or a valid string: \x7b" ++ ", ".intercalate
      ["'%': (<class 'logging.PercentStyle'>, '%(levelname)s:%(name)s:%(message)s')",
        "'\x7b': (<class 'logging.StrFormatStyle'>, " ++
          "'\x7blevelname\x7d:\x7bname\x7d:\x7bmessage\x7d')",
        "'$': (<class 'logging.StringTemplateStyle'>, " ++
          "'$\x7blevelname\x7d:$\x7bname\x7d:$\x7bmessage\x7d')"] ++ "\x7d"

/-- The level of a name.  Upper and lower case do not matter, and a name that is not known
stands for the level of `Severity.info`. -/
def levelOfName (s : String) : Except LevelError Nat :=
  match String.ofList (s.toList.flatMap upperCase) with
  | "DEBUG" => .ok Severity.debug.level
  | "WARNING" => .ok Severity.warning.level
  | "WARN" => .ok Severity.warning.level
  | "ERROR" => .ok Severity.error.level
  | "CRITICAL" => .ok Severity.critical.level
  | "FATAL" => .ok Severity.critical.level
  | "NOTSET" => .ok 0
  | "BASIC_FORMAT" => .error .unknown
  | "_STYLES" => .error .notText
  | _ => .ok Severity.info.level

end Log

/-! ## Logs -/

/-- A log: its level, the fields that are bound, and the names that each context bound, the
inner ones first. -/
structure Log where
  level : Nat
  bound : Json.Members := []
  contexts : List (List String) := []

namespace Log

/-- Opens a context. -/
def enter (l : Log) (fields : Json.Members) : Log :=
  { l with bound := Keyed.putAll fields l.bound, contexts := Keyed.names fields :: l.contexts }

/-- Leaves the inner context.  The names it bound are free then, also those that an outer one
had bound. -/
def leave (l : Log) : Log :=
  match l.contexts with
  | [] => l
  | names :: contexts =>
    { l with bound := l.bound.filter (fun b => !names.contains b.1), contexts := contexts }

/-- Fields that ask for a trace of the program.  There is none, and they are not shown. -/
def traceFields : List String := ["exc_info", "stack_info"]

/-- The name under which the records of a logger are kept.  The one without a name is the root of
all loggers. -/
def loggerName (name : String) : String := if name.isEmpty then "root" else name

/-- The record of an event, if its level is reached. -/
def record? (l : Log) (s : Severity) (event logger : String) (fields : Json.Members) :
    Option Json :=
  if l.level ≤ s.level then
    let about : Json.Members :=
      [("event", .str event), ("logger", .str (loggerName logger)), ("level", .str (Choice.name s))]
    some (.obj ((Keyed.putAll (fields ++ about) l.bound).filter
      fun (name, _) => !traceFields.contains name))
  else none

end Log

end PageDesign
