import CommandShell.Settings.Layers
import CommandShell.Settings.Path

/-!
The settings of the shell: what each may be, and how they are read from their sources.
-/

set_option autoImplicit false

namespace CommandShell

structure Settings where
  /-- the package that plugins are loaded from -/
  package : Text
  logLevel : Option Text
  logPath : Option Path
  /-- how many seconds a provider may take -/
  timeout : Binary64
  /-- how many candidates a completion gives -/
  limit : Int
  completes : Bool
  prompt : Option Text
  showsBanner : Bool
  /-- settings of other names -/
  extra : Layer

inductive SettingFault where
  | notBoolean (shown : Text)
  | notInteger (shown : Text)
  | notNumber (shown : Text)
  | tooLarge
  /-- a value that has no text -/
  | unwritable (fault : Fault)
  | noLevel (name : Text)
  | brokenPath
  | noPackageName (name : Text)
  | noTime
  | noResults

namespace SettingFault

def fault : SettingFault → Fault
  | .notBoolean shown => ⟨.value, "Expected boolean, got: ".toList ++ shown⟩
  | .notInteger shown => ⟨.value, "Expected integer, got: ".toList ++ shown⟩
  | .notNumber shown => ⟨.value, "Expected number, got: ".toList ++ shown⟩
  | .tooLarge => ⟨.overflow, "int too large to convert to float".toList⟩
  | .unwritable fault => fault
  | .noLevel name =>
    ⟨.value, "LOG_LEVEL must be one of ['CRITICAL', 'DEBUG', 'ERROR', 'INFO', 'WARNING']".toList
      ++ ", got ".toList ++ Text.quoted name⟩
  | .brokenPath => ⟨.value, "embedded null byte".toList⟩
  | .noPackageName name =>
    ⟨.value, "PLUGIN_PACKAGE must be a dotted module path, got ".toList ++ Text.quoted name⟩
  | .noTime => ⟨.value, "PROVIDER_TIMEOUT must be > 0".toList⟩
  | .noResults => ⟨.value, "MAX_COMPLETION_RESULTS must be >= 1".toList⟩

end SettingFault

namespace Setting

def orUnwritable (text : Except Raised Text) : Except SettingFault Text :=
  text.mapError (.unwritable ·.innermost)

def written (d : Datum) : Except SettingFault Text := orUnwritable d.print

def refuse {α : Type} (fault : Text → SettingFault) (d : Datum) : Except SettingFault α := do
  throw (fault (← orUnwritable d.shown))

def boolean (d : Datum) : Except SettingFault Bool :=
  match d with
  | .boolean b => .ok b
  | d => do
    match truth? (Text.lower (Text.strip (← written d))) with
    | some b => pure b
    | none => refuse .notBoolean d

def integer (d : Datum) : Except SettingFault Int :=
  match d with
  | .integer n => .ok n
  | d => do
    match Numeral.read (Text.strip (← written d)) with
    | .ok n => pure n
    | .error _ => refuse .notInteger d

def number (d : Datum) : Except SettingFault Binary64 :=
  match d with
  | .integer n =>
    match Binary64.ofInt n with
    | .infinite _ => .error .tooLarge
    | x => .ok x
  | .number x => .ok x
  | d => do
    match Binary64.read? (Text.strip (← written d)) with
    | some x => pure x
    | none => refuse .notNumber d

def text? (d : Datum) : Except SettingFault (Option Text) :=
  match d with
  | .null => .ok none
  | d => do
    let s ← written d
    let word := Text.lower (Text.strip s)
    pure (if word.isEmpty || word = "none".toList then none else some s)

def levels : List Text := ["CRITICAL", "DEBUG", "ERROR", "INFO", "WARNING"].map (·.toList)

def level? (d : Datum) : Except SettingFault (Option Text) := do
  match ← text? d with
  | none => pure none
  | some name =>
    if levels.contains (Text.upper name) then pure (some (Text.upper name))
    else .error (.noLevel name)

def path? (s : Surroundings) (d : Datum) : Except SettingFault (Option Path) := do
  match ← text? d with
  | none => pure none
  | some written =>
    if written.contains (Char.ofNat 0) then .error .brokenPath
    else pure (some (Path.ofWritten s written))

def isPackagePart : Text → Bool
  | c :: s => (c.isAlpha || c == '_') && s.all Text.isWord
  | [] => false

def isPackageName (s : Text) : Bool := (Text.pieces (· == '.') s).all isPackagePart

end Setting

namespace Settings

def defaults : Layer :=
  [("PLUGIN_PACKAGE".toList, .text "tabline.plugins".toList), ("LOG_LEVEL".toList, .null),
    ("LOG_FILE_PATH".toList, .null), ("PROVIDER_TIMEOUT".toList, .number (Binary64.ofInt 2)),
    ("MAX_COMPLETION_RESULTS".toList, .integer 200), ("ENABLE_COMPLETION".toList, .boolean true),
    ("PROMPT".toList, .null), ("SHOW_BANNER".toList, .boolean true)]

def check (s : Settings) : Except SettingFault Settings :=
  if !Setting.isPackageName s.package then .error (.noPackageName s.package)
  else if s.timeout.isAtMostZero then .error .noTime
  else if s.limit < 1 then .error .noResults
  else .ok s

def ofLayer (surroundings : Surroundings) (layer : Layer) : Except SettingFault Settings := do
  let get (name : String) : Datum := (layer.get? name.toList).getD .null
  let package := Text.strip (← Setting.written (get "PLUGIN_PACKAGE"))
  let logLevel ← Setting.level? (get "LOG_LEVEL")
  let logPath ← Setting.path? surroundings (get "LOG_FILE_PATH")
  let timeout ← Setting.number (get "PROVIDER_TIMEOUT")
  let limit ← Setting.integer (get "MAX_COMPLETION_RESULTS")
  let completes ← Setting.boolean (get "ENABLE_COMPLETION")
  let prompt ← Setting.text? (get "PROMPT")
  let showsBanner ← Setting.boolean (get "SHOW_BANNER")
  check {
    package, logLevel, logPath, timeout, limit, completes, prompt, showsBanner
    extra := layer.filter fun (name, _) => !defaults.has name }

def load (surroundings : Surroundings) (files : SettingsFiles) (vars : List (Text × Text)) :
    Except Fault Settings := do
  let place := Path.text (surroundings.folder ++ ["config.ini".toList])
  let layers ← Layer.all place files vars
  (ofLayer surroundings (Layer.merge (defaults :: layers))).mapError (·.fault)

end Settings

end CommandShell
