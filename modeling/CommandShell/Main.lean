import CommandShell.Session.Interaction
import CommandShell.Startup.Steps

/-!
The program: reads its surroundings, starts the shell and answers lines until they end.
-/

set_option autoImplicit false

namespace CommandShell.Main

def fileText (name : String) : IO Text := do
  try pure (← IO.FS.readFile name).toList catch _ => pure []

def environment : IO (List (Text × Text)) := do
  let entries := Text.pieces (· == Char.ofNat 0) (← fileText "/proc/self/environ")
  pure (entries.filterMap (Text.cut? ['=']))

def openFault? (path : Path) : IO (Option OpenFault) := do
  try
    let _ ← IO.FS.Handle.mk (String.ofList path.text) .append
    pure none
  catch
    | .noFileOrDirectory .. => pure (some (.missing path))
    | .invalidArgument .. => pure (some (.tooLong path))
    | .inappropriateType .. => pure (some (.isFolder path))
    | _ => pure (some (.notFolder path))

def logFault? (surroundings : Surroundings) (files : SettingsFiles)
    (environment : List (Text × Text)) : IO (Option OpenFault) := do
  match Settings.load surroundings files environment with
  | .ok settings =>
    match settings.logPath with
    | some path => openFault? path
    | none => pure none
  | .error _ => pure none

def homes : IO (Entries Text Text) := do
  let lines := Text.pieces (· == '\n') (← fileText "/etc/passwd")
  pure (Entries.ofList (lines.filterMap fun line =>
    match Text.pieces (· == ':') line with
    | [name, _, _, _, _, home, _] => some (name, home)
    | _ => none))

def host : IO Host := do
  let environment ← environment
  let folder := Path.ofText (← IO.currentDir).toString.toList
  let files : SettingsFiles :=
    ⟨← fileText ".env", ← fileText "config.ini", ← fileText "config.json", ← fileText "config.toml"⟩
  let surroundings : Surroundings := ⟨folder, Entries.ofList environment, ← homes, []⟩
  let refused ← logFault? surroundings files environment
  let system ← fileText "/proc/sys/kernel/ostype"
  let release ← fileText "/proc/sys/kernel/osrelease"
  pure {
    surroundings
    settingsFiles := files
    environment
    isTerminal := ← (← IO.getStdout).isTty
    description := Text.strip system ++ ' ' :: Text.strip release
    installed := Plugin.bundled
    loading := Loading.empty
    types := Layout.types
    logFault? := fun _ => refused }

def put (s : Text) : IO Unit := do
  let output ← IO.getStdout
  output.putStr (String.ofList s)
  output.flush

def clearText : Text := Ansi.escape :: "[H".toList ++ Ansi.escape :: "[2J".toList

def fail (fault : Fault) : IO UInt32 := do
  IO.eprintln (String.ofList fault.report)
  pure 1

partial def loop (prompt : Text) (shell : Shell Layout) (session : Session Layout) :
    IO UInt32 := do
  put prompt
  let line ← (← IO.getStdin).getLine
  if line.isEmpty then pure 0
  else
    let turn := session.turn shell (Text.stripEnd (· == '\n') line.toList)
    if turn.session.clears > session.clears then put clearText
    put turn.output
    match turn.raised with
    | some raised => fail raised.innermost
    | none => if turn.goesOn then loop prompt shell turn.session else pure 0

def run (arguments : List String) : IO UInt32 := do
  let (result, written) := (Startup.start (← host) (arguments.map (·.toList))).run.run []
  put written
  match result with
  | .error fault => fail fault
  | .ok started => loop started.promptText started.shell Started.session

end CommandShell.Main

def main (arguments : List String) : IO UInt32 := CommandShell.Main.run arguments
