import CommandShell.Datum.Toml.Document
import CommandShell.Datum.ValueType
import CommandShell.Settings.Assignments
import CommandShell.Settings.Sections
import CommandShell.Text.Uppercase

/-!
Layers of settings: what each source gives, under names in upper case, and which source wins.
-/

set_option autoImplicit false

namespace CommandShell

abbrev Layer := Entries Text Datum

/-- The texts of the files that settings are read from; a missing file counts as an empty one. -/
structure SettingsFiles where
  assignments : Text
  sections : Text
  json : Text
  toml : Text

namespace Layer

def ownTable : Text := "tabline".toList

/-- What begins the names of settings outside their files, and may begin them inside. -/
def mark : Text := "TABLINE_".toList

def joinedName (start key : Text) : Text := if start.isEmpty then key else start ++ '_' :: key

mutual

/-- The settings in a value: a table gives its entries, under its own name and theirs. -/
def settingsIn (start key : Text) : Datum → List (Text × Datum)
  | .map entries =>
    if start.isEmpty && Text.lower key = ownTable then settingsOf [] entries
    else settingsOf (joinedName start key) entries
  | d => [(joinedName start key, d)]

def settingsOf (start : Text) : List (Text × Datum) → List (Text × Datum)
  | [] => []
  | (key, d) :: rest => settingsIn start key d ++ settingsOf start rest

end

def unmarked (name : Text) : Text :=
  if Text.startsWith name mark then name.drop mark.length else name

/-- A layer of settings as a file gives them: of several with one name the last holds. -/
def ofFile (settings : List (Text × Datum)) : Layer :=
  Entries.ofList
    ((Entries.ofList (settings.map fun (name, d) => (Text.upper name, d))).map
      fun (name, d) => (unmarked name, d))

def ofTexts (settings : List (Text × Text)) : Layer :=
  ofFile (settings.map fun (name, s) => (name, .text s))

def ofAssignments (file : Text) : Layer := ofTexts (Assignments.read file)

def ofSections (place file : Text) : Except Fault Layer :=
  match Sections.read file >>= Sections.all with
  | .ok settings => .ok (ofTexts settings)
  | .error fault => .error (fault.fault place)

def tooLong (digits : Nat) : Fault := ⟨.value, tooManyDigits digits⟩

def tooDeep (manner : String) : Fault :=
  ⟨.recursion, "maximum recursion depth exceeded".toList ++ manner.toList⟩

def maxDepth : Nat := 987

def ofTable (table : List (Text × Datum)) : Except Fault Layer :=
  if (Datum.map table).depth > maxDepth then .error (tooDeep " in comparison")
  else .ok (ofFile (settingsOf [] table))

def ofJson (file : Text) : Except Fault Layer :=
  match Json.read file with
  | .ok (.map entries) => ofTable entries
  | .ok _ | .error .malformed => .ok []
  | .error (.tooLong digits) => .error (tooLong digits)
  | .error (.tooDeep isList) =>
    .error (tooDeep (if isList then " while decoding a JSON array from a unicode string"
      else " while decoding a JSON object from a unicode string"))

def ofToml (file : Text) : Except Fault Layer :=
  match Toml.read file with
  | .ok table => ofTable table
  | .error .malformed => .ok []
  | .error (.tooLong digits) => .error (tooLong digits)
  | .error .tooDeep => .error (tooDeep "")

def isSettingChar (c : Char) : Bool := c.isUpper || c.isDigit || c == '_'

def ofEnvironment (vars : List (Text × Text)) : Layer :=
  Entries.ofList (vars.filterMap fun (name, value) =>
    if Text.startsWith name mark && name.all isSettingChar then
      some (name.drop mark.length, .text value)
    else none)

def merge (layers : List Layer) : Layer := layers.foldl Entries.update []

/-- The layers of the files and of the environment, the weakest first; `place` is where the file of
sections lies. -/
def all (place : Text) (files : SettingsFiles) (vars : List (Text × Text)) :
    Except Fault (List Layer) := do
  let sections ← ofSections place files.sections
  let json ← ofJson files.json
  let toml ← ofToml files.toml
  pure [ofAssignments files.assignments, sections, json, toml, ofEnvironment vars]

end Layer

end CommandShell
