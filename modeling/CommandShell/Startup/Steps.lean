import CommandShell.Display.Log
import CommandShell.Session.Line
import CommandShell.Startup.Host

/-!
Starting the shell: steps in order, each with a line that says how it went. The first that fails
ends the start.
-/

set_option autoImplicit false

namespace CommandShell

structure Started where
  settings : Settings
  logger : Log.Logger
  loading : Loading Layout
  types : TypeRegistry

namespace Startup

/-- A computation that writes, and may fail; what it has written stays. -/
abbrev Writing (α : Type) := ExceptT Fault (StateM Text) α

def write (s : Text) : Writing Unit := modify (· ++ s)

def writeLine (s : Text) : Writing Unit := write (s ++ ['\n'])

def doneText (label : Text) : Text :=
  Ansi.colorize ("[  OK  ] ".toList ++ label) ["green".toList]

def failedText (label : Text) (fault : Fault) : Text :=
  Ansi.colorize ("[FAILED] ".toList ++ label ++ " (".toList ++ fault.report ++ [')'])
    ["red".toList]

/-- A step and its line; a quiet start only tells of failures. -/
def step {α : Type} (quiet : Bool) (label : Text) (result : Except Fault α) : Writing α := do
  match result with
  | .error fault =>
    writeLine (failedText label fault)
    throw fault
  | .ok a =>
    if quiet then pure () else writeLine (doneText label)
    pure a

def loggerFor (host : Host) (settings : Settings) : Except Fault Log.Logger :=
  let wanted := match settings.logLevel with
    | some name => Log.Wanted.named name
    | none => .standard
  match settings.logPath.bind host.logFault? with
  | some refused => .error refused.fault
  | none => Log.Logger.none.setUp wanted settings.logPath.isSome

def load (host : Host) (package : Text) : Except Fault (Loading Layout) :=
  match host.loading.load host.installed package with
  | (loading, .ok _) => .ok loading
  | (_, .error fault) => .error fault.fault

def titleText (title : Text) : Text :=
  Ansi.escape :: "]2;".toList ++ title ++ [Char.ofNat 7]

def setTitle (host : Host) (commands : Nat) : Writing Unit :=
  if host.isTerminal then
    write (titleText ("tabline • ".toList ++ Text.ofNat commands ++ " cmds".toList))
  else pure ()

def run (host : Host) (quiet : Bool) : Writing Started := do
  let step {α : Type} (label : String) (result : Except Fault α) : Writing α :=
    step quiet label.toList result
  step "Enable ANSI sequences" (.ok ())
  Startup.step quiet ("Detect environment: ".toList ++ host.description) (.ok ())
  let settings ← step "Load configuration"
    (Settings.load host.surroundings host.settingsFiles host.environment)
  let logger ← step "Initialize logger" (loggerFor host settings)
  let loading ← Startup.step quiet
    ("Load plugins from '".toList ++ settings.package ++ ['\'']) (load host settings.package)
  step "Register commands" (.ok ())
  step "Register attached-member owner types" (.ok ())
  setTitle host loading.registry.all.length
  step "Finalize terminal title" (.ok ())
  pure ⟨settings, logger, loading, host.types⟩

def banner : Text :=
  "tabline - PowerShell-style completion shell. Press Tab to complete.".toList

def start (host : Host) (arguments : List Text) : Writing Started := do
  let started ← run host (arguments.contains "--quiet".toList)
  if started.settings.showsBanner then
    writeLine (Ansi.colorize banner ["bold".toList, "cyan".toList])
    writeLine Help.hint
  pure started

end Startup

namespace Started

def shell (s : Started) : Shell Layout := ⟨s.loading.registry, s.types⟩

def promptText (s : Started) : Text := s.settings.prompt.getD "PS> ".toList

def session : Session Layout := Session.start [] []

end Started

end CommandShell
