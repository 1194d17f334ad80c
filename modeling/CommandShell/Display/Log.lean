import CommandShell.Display.Ansi
import CommandShell.Fault
import CommandShell.Text.Uppercase

/-!
Log records: how they are written to a terminal and to a file, and which of them a logger takes.
-/

set_option autoImplicit false

namespace CommandShell.Log

/-- The names by which a level can be asked for; the first name of a level is the one shown. -/
def names : List (Text × Int) :=
  [("CRITICAL", 50), ("FATAL", 50), ("ERROR", 40), ("WARNING", 30), ("WARN", 30), ("INFO", 20),
    ("DEBUG", 10), ("NOTSET", 0)].map fun (name, level) => (name.toList, level)

def debug : Int := 10

def levelName (level : Int) : Text :=
  match names.find? (·.2 = level) with
  | some (name, _) => name
  | none => "Level ".toList ++ Text.ofInt level

def styleOf (level : Int) : List Text :=
  let styles : List (Int × String) :=
    [(10, "bright_black"), (30, "yellow"), (40, "red"), (50, "magenta")]
  (styles.lookup level).toList.map (·.toList)

structure Record where
  level : Int
  message : Text

/-- A record as a console shows it: in the style of its level on a terminal, plain elsewhere. -/
def consoleText (terminal : Bool) (r : Record) : Text :=
  let line := '[' :: levelName r.level ++ "] ".toList ++ r.message
  if terminal then Ansi.colorize line (styleOf r.level) else Ansi.strip line

/-- A record as a file holds it, with the time at which it was made. -/
def plainText (time logger : Text) (r : Record) : Text :=
  Ansi.strip (time ++ " [".toList ++ levelName r.level ++ "] ".toList ++ logger ++ ": ".toList
    ++ r.message)

inductive Wanted where
  | standard
  | number (level : Int)
  | named (name : Text)
  /-- by a value of a type that has no level -/
  | unfit (typeName : Text)

def Wanted.level : Wanted → Except Fault Int
  | .standard => .ok 30
  | .number level => .ok level
  | .named name =>
    match names.lookup (Text.upper name) with
    | some level => .ok level
    | none => .error ⟨.value, "Unknown log level: ".toList ++ Text.quoted name⟩
  | .unfit typeName =>
    .error ⟨.attribute, '\'' :: typeName ++ "' object has no attribute 'upper'".toList⟩

inductive Target where
  | console
  | file
  deriving DecidableEq

structure Logger where
  level : Int
  targets : List (Target × Int)

def Logger.none : Logger := ⟨0, []⟩

def Logger.addTarget (l : Logger) (target : Target) (level : Int) : Logger :=
  if l.targets.any (·.1 = target) then l
  else { l with targets := l.targets ++ [(target, level)] }

/-- Sets a logger up. A file takes records from debugging on, and so does then the logger; targets
that are there already stay as they are. -/
def Logger.setUp (l : Logger) (wanted : Wanted) (toFile : Bool) : Except Fault Logger := do
  let level ← wanted.level
  let l := { l with level := if toFile then debug else level }.addTarget .console level
  pure (if toFile then l.addTarget .file debug else l)

end CommandShell.Log
