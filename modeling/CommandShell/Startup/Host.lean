import CommandShell.Plugin.Bundled
import CommandShell.Settings.Basic

/-!
What the shell finds where it is started: settings, modules, and whether its log can be opened.
-/

set_option autoImplicit false

namespace CommandShell

inductive OpenFault where
  | missing (path : Path)
  | notFolder (path : Path)
  | isFolder (path : Path)
  | tooLong (path : Path)
  deriving DecidableEq

namespace OpenFault

def fault : OpenFault → Fault
  | .missing path =>
    ⟨.missingFile, "[Errno 2] No such file or directory: ".toList ++ Text.quoted path.text⟩
  | .notFolder path =>
    ⟨.other "NotADirectoryError".toList, "[Errno 20] Not a directory: ".toList
      ++ Text.quoted path.text⟩
  | .isFolder path =>
    ⟨.other "IsADirectoryError".toList, "[Errno 21] Is a directory: ".toList
      ++ Text.quoted path.text⟩
  | .tooLong path =>
    ⟨.other "OSError".toList, "[Errno 36] File name too long: ".toList ++ Text.quoted path.text⟩

end OpenFault

structure FileTree where
  folders : List Path
  files : List Path

namespace FileTree

def make (folders files : List Path) : FileTree :=
  ⟨folders ++ files.flatMap fun p => (List.range p.length).map p.take, files⟩

def bytes (s : Text) : Nat := s.foldl (fun n c => n + c.utf8Size) 0

def maxName : Nat := 255

def maxPath : Nat := 4095

/-- Why a walk along names from a folder does not end at a file that can be written: `place` is
where it has come. -/
def walkFault? (t : FileTree) (p place : Path) : List Text → Option OpenFault
  | [] => if t.folders.contains place then some (.isFolder p) else none
  | name :: rest =>
    if !t.folders.contains place then
      if t.files.contains place then some (.notFolder p) else some (.missing p)
    else if bytes name > maxName then some (.tooLong p)
    else walkFault? t p (place ++ [name]) rest

/-- The first step that cannot be taken decides, and then the end of the path. -/
def openFault? (t : FileTree) (p : Path) : Option OpenFault :=
  if bytes p.text > maxPath then some (.tooLong p) else t.walkFault? p [] p

end FileTree

structure Host where
  surroundings : Surroundings
  settingsFiles : SettingsFiles
  /-- all variables of the environment -/
  environment : List (Text × Text)
  /-- the output goes to a terminal -/
  isTerminal : Bool
  /-- the names of the system and of what the shell runs on -/
  description : Text
  installed : List (Module Layout)
  /-- what is loaded already -/
  loading : Loading Layout
  types : TypeRegistry
  logFault? : Path → Option OpenFault

end CommandShell
