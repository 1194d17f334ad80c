import CommandShell.Entries
import CommandShell.Fault
import CommandShell.Text.Blank
import CommandShell.Text.Lowercase

/-!
Files of sections: a header in brackets, then options with their values, which deeper lines
continue. The options of the section `DEFAULT` belong to every section.
-/

set_option autoImplicit false

namespace CommandShell

abbrev Options := Entries Text Text

structure Sections where
  shared : Options
  own : Entries Text Options

inductive SectionsFault where
  | noHeader (number : Nat) (line : Text)
  | repeatedSection (number : Nat) (name : Text)
  | repeatedOption (number : Nat) (header option : Text)
  | unreadable (lines : List (Nat × Text))
  | tooDeep (header option raw : Text)
  | unknownReference (header option key raw : Text)
  | brokenReference (rest : Text)
  | strayPercent (rest : Text)
  deriving DecidableEq

namespace SectionsFault

def kind : SectionsFault → Text
  | .noHeader .. => "MissingSectionHeaderError".toList
  | .repeatedSection .. => "DuplicateSectionError".toList
  | .repeatedOption .. => "DuplicateOptionError".toList
  | .unreadable _ => "ParsingError".toList
  | .tooDeep .. => "InterpolationDepthError".toList
  | .unknownReference .. => "InterpolationMissingOptionError".toList
  | .brokenReference _ | .strayPercent _ => "InterpolationSyntaxError".toList

def fileText (file : Text) : Text := "PosixPath(".toList ++ Text.quoted file ++ [')']

def lineText (number : Nat) : Text :=
  let digits := Text.ofNat number
  "[line ".toList ++ (if digits.length < 2 then ' ' :: digits else digits) ++ [']']

def whileReading (file : Text) (number : Nat) : Text :=
  "While reading from ".toList ++ fileText file ++ ' ' :: lineText number ++ ": ".toList

def optionText (header option : Text) : Text :=
  "option ".toList ++ Text.quoted option ++ " in section ".toList ++ Text.quoted header

def message (file : Text) : SectionsFault → Text
  | .noHeader number line =>
    "File contains no section headers.\nfile: ".toList ++ fileText file ++ ", line: ".toList
      ++ Text.ofNat number ++ '\n' :: Text.quoted line
  | .repeatedSection number name =>
    whileReading file number ++ "section ".toList ++ Text.quoted name ++ " already exists".toList
  | .repeatedOption number header option =>
    whileReading file number ++ optionText header option ++ " already exists".toList
  | .unreadable lines =>
    "Source contains parsing errors: ".toList ++ fileText file
      ++ lines.flatMap fun (number, line) =>
        "\n\t".toList ++ lineText number ++ ": ".toList ++ Text.quoted line
  | .tooDeep header option raw =>
    "Recursion limit exceeded in value substitution: ".toList ++ optionText header option
      ++ " contains an interpolation key which cannot be substituted in 10 steps.".toList
      ++ " Raw value: ".toList ++ Text.quoted raw
  | .unknownReference header option key raw =>
    "Bad value substitution: ".toList ++ optionText header option
      ++ " contains an interpolation key ".toList ++ Text.quoted key
      ++ " which is not a valid option name. Raw value: ".toList ++ Text.quoted raw
  | .brokenReference rest => "bad interpolation variable reference ".toList ++ Text.quoted rest
  | .strayPercent rest =>
    "'%' must be followed by '%' or '(', found: ".toList ++ Text.quoted rest

def fault (file : Text) (f : SectionsFault) : Fault := ⟨.other f.kind, f.message file⟩

end SectionsFault

namespace Sections

/-! ## Lines -/

def rawLines : Text → List Text
  | [] => []
  | '\r' :: '\n' :: s => ['\n'] :: rawLines s
  | c :: s =>
    if c == '\n' || c == '\r' then ['\n'] :: rawLines s
    else match rawLines s with
      | [] => [[c]]
      | line :: rest => (c :: line) :: rest

/-- The name of the section that a line opens: all between the first bracket and the last. -/
def header? : Text → Option Text
  | '[' :: s =>
    match Text.cutLast? [']'] s with
    | some (c :: name, _) => some (c :: name)
    | _ => none
  | _ => none

def isDelimiter (c : Char) : Bool := c == '=' || c == ':'

def option? (line : Text) : Option (Text × Text) :=
  match line.dropWhile fun c => !isDelimiter c with
  | [] => none
  | _ :: value =>
    some (Text.lower (Text.stripEnd Text.isSpace (line.takeWhile fun c => !isDelimiter c)),
      Text.strip value)

/-! ## Reading -/

abbrev Lined := Entries Text (List Text)

structure Reading where
  shared : Lined
  own : Entries Text Lined
  header : Option Text
  /-- the option that a deeper line continues; an empty name is continued by none -/
  option : Text
  depth : Nat
  unreadable : List (Nat × Text)

def Reading.start : Reading := ⟨[], [], none, [], 0, []⟩

def sharedName : Text := "DEFAULT".toList

namespace Reading

def options (r : Reading) (header : Text) : Lined :=
  if header = sharedName then r.shared else (r.own.get? header).getD []

def setOptions (r : Reading) (header : Text) (options : Lined) : Reading :=
  if header = sharedName then { r with shared := options }
  else { r with own := r.own.set header options }

def continued? (r : Reading) : Option Text := if r.option.isEmpty then none else r.header

def continueWith (r : Reading) (header value : Text) : Reading :=
  let options := r.options header
  r.setOptions header (options.set r.option (((options.get? r.option).getD []) ++ [value]))

def openSection (r : Reading) (number : Nat) (name : Text) : Except SectionsFault Reading :=
  if r.own.has name then .error (.repeatedSection number name)
  else
    .ok { r.setOptions name (r.options name) with header := some name, option := [] }

/-- Takes a line that is neither blank nor a comment and continues no value. -/
def takeHeading (r : Reading) (number : Nat) (line value : Text) : Except SectionsFault Reading :=
  match header? value, r.header with
  | some name, _ => r.openSection number name
  | none, none => .error (.noHeader number line)
  | none, some header =>
    let refused := { r with unreadable := r.unreadable ++ [(number, line)] }
    match option? value with
    | none => .ok refused
    | some (option, value) =>
      let r := if option.isEmpty then refused else r
      if (r.options header).has option then .error (.repeatedOption number header option)
      else
        .ok { r.setOptions header ((r.options header).set option [value]) with option := option }

def isComment : Text → Bool
  | '#' :: _ => true
  | ';' :: _ => true
  | _ => false

/-- A blank line belongs to the value before it, in case more of that follows. -/
def takeLine (r : Reading) (number : Nat) (line : Text) : Except SectionsFault Reading :=
  let value := Text.strip line
  let depth := (line.takeWhile Text.isSpace).length
  if isComment value then .ok r
  else match r.continued? with
    | some header =>
      if value.isEmpty || depth > r.depth then .ok (r.continueWith header value)
      else takeHeading { r with depth := depth } number line value
    | none =>
      if value.isEmpty then .ok r else takeHeading { r with depth := depth } number line value

def takeLines (r : Reading) (number : Nat) : List Text → Except SectionsFault Reading
  | [] => .ok r
  | line :: rest => do
    let r ← r.takeLine number line
    takeLines r (number + 1) rest

def joined (options : Lined) : Options :=
  options.map fun (name, lines) => (name, Text.stripEnd Text.isSpace (Text.join ['\n'] lines))

def finish (r : Reading) : Except SectionsFault Sections :=
  if r.unreadable.isEmpty then
    .ok ⟨joined r.shared, r.own.map fun (name, options) => (name, joined options)⟩
  else .error (.unreadable r.unreadable)

end Reading

def read (file : Text) : Except SectionsFault Sections := do
  (← Reading.start.takeLines 1 (rawLines file)).finish

/-! ## References -/

inductive Piece where
  | plain (c : Char)
  | reference (key : Text)
  | refused (fault : SectionsFault)

def reference? : Text → Option (Text × Text)
  | '(' :: s =>
    match s.takeWhile (· != ')'), s.dropWhile (· != ')') with
    | c :: key, ')' :: 's' :: rest => some (c :: key, rest)
    | _, _ => none
  | _ => none

theorem reference?_length {s key rest : Text} (h : reference? s = some (key, rest)) :
    rest.length < s.length := by
  unfold reference? at h
  split at h
  · rename_i s
    have := (List.dropWhile_suffix (· != ')') (l := s)).length_le
    split at h
    · simp_all; omega
    · simp at h
  · simp at h

/-- The parts of a value; two percent signs stand for one. -/
def piecesOf (s : Text) : List Piece :=
  match s with
  | [] => []
  | c :: s =>
    if c != '%' then .plain c :: piecesOf s
    else match s with
      | '%' :: s => .plain '%' :: piecesOf s
      | '(' :: t =>
        match _h : reference? ('(' :: t) with
        | some (key, rest) => .reference (Text.lower key) :: piecesOf rest
        | none => [.refused (.brokenReference (c :: '(' :: t))]
      | s => [.refused (.strayPercent (c :: s))]
termination_by s.length
decreasing_by
  · simp only [List.length_cons]; omega
  · simp only [List.length_cons]; omega
  · have := reference?_length ‹_›
    simp only [List.length_cons] at this ⊢; omega

structure Substitution where
  header : Text
  option : Text
  raw : Text
  options : Options

def maxDepth : Nat := 10

/-- The text of a value with all references replaced; `depth` bounds their nesting. -/
def expand (context : Substitution) : Nat → List Piece → Except SectionsFault Text
  | 0, _ => .error (.tooDeep context.header context.option context.raw)
  | depth + 1, pieces => do
    let parts ← pieces.mapM fun
      | .plain c => .ok [c]
      | .refused fault => .error fault
      | .reference key =>
        match context.options.get? key with
        | none => .error (.unknownReference context.header context.option key context.raw)
        | some value =>
          if value.contains '%' then expand context depth (piecesOf value) else .ok value
    pure parts.flatten

/-- The options of a section, those that are shared first, with all references replaced. -/
def expanded (s : Sections) (header : Text) (own : Options) : Except SectionsFault Options :=
  let options := Entries.update s.shared own
  options.mapM fun (name, raw) => do
    pure (name, ← expand ⟨header, name, raw, options⟩ maxDepth (piecesOf raw))

def all (s : Sections) : Except SectionsFault (List (Text × Text)) := do
  pure (← s.own.mapM fun (header, own) => s.expanded header own).flatten

end Sections

end CommandShell
