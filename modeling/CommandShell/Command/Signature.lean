import CommandShell.Command.Basic
import CommandShell.Text.Uppercase

/-!
Routines with declared arguments, and the commands made of them.
-/

set_option autoImplicit false

namespace CommandShell

inductive ArgumentKind where
  | placeOrName
  | placeOnly
  | nameOnly
  /-- all further places -/
  | places
  /-- all further names -/
  | names
  deriving DecidableEq

structure DeclaredArgument where
  name : Text
  type : ValueType
  kind : ArgumentKind
  /-- the value of an argument that is not given; without one it has to be given -/
  fallback : Option Datum

structure Signature where
  name : Text
  arguments : List DeclaredArgument

structure Received where
  own : Entries Text Datum
  further : Entries Text Datum
  sources : Entries Text Source

inductive CallFault where
  | placeOnlyByName (routine : Text) (names : List Text)
  | unexpected (routine name : Text)
  | missing (routine : Text) (byName : Bool) (first : Text) (others : List Text)
  deriving DecidableEq

namespace CallFault

def listed : Text → List Text → Text
  | first, [] => '\'' :: first ++ ['\'']
  | first, [second] => '\'' :: first ++ "' and '".toList ++ second ++ ['\'']
  | first, others =>
    let all := first :: others
    Text.join ", ".toList (all.dropLast.map fun name => '\'' :: name ++ ['\''])
      ++ ", and '".toList ++ (all.getLast?.getD []) ++ ['\'']

def message : CallFault → Text
  | .placeOnlyByName routine names =>
    routine ++ "() got some positional-only arguments passed as keyword arguments: '".toList
      ++ Text.join ", ".toList names ++ ['\'']
  | .unexpected routine name =>
    routine ++ "() got an unexpected keyword argument '".toList ++ name ++ ['\'']
  | .missing routine byName first others =>
    routine ++ "() missing ".toList ++ Text.ofNat (others.length + 1) ++ " required ".toList
      ++ (if byName then "keyword-only" else "positional").toList ++ " argument".toList
      ++ (if others.isEmpty then [] else ['s']) ++ ": ".toList ++ listed first others

def fault (f : CallFault) : Fault := ⟨.type, f.message⟩

end CallFault

namespace Signature

def takesAny (s : Signature) : Bool := s.arguments.any (·.kind = .names)

def isByName (a : DeclaredArgument) : Bool := a.kind = .placeOrName || a.kind = .nameOnly

def isByPlace (a : DeclaredArgument) : Bool := a.kind = .placeOrName || a.kind = .placeOnly

def strays (s : Signature) (keywords : Entries Text Datum) : Entries Text Datum :=
  keywords.filter fun entry => !s.arguments.any fun a => isByName a && a.name = entry.1

def valueIn (keywords : Entries Text Datum) (a : DeclaredArgument) : Option Datum :=
  if isByName a then (keywords.get? a.name).or a.fallback else a.fallback

def missing? (s : Signature) (keywords : Entries Text Datum) (byName : Bool) : Option CallFault :=
  match s.arguments.filter fun a =>
    (if byName then a.kind = .nameOnly else isByPlace a) && (valueIn keywords a).isNone with
  | [] => none
  | first :: others => some (.missing s.name byName first.name (others.map (·.name)))

def misfit? (s : Signature) (keywords : Entries Text Datum) : Option CallFault :=
  if s.takesAny then none
  else match s.strays keywords with
    | [] => none
    | stray :: _ =>
      match s.arguments.filter fun a => a.kind = .placeOnly && keywords.has a.name with
      | [] => some (.unexpected s.name stray.1)
      | wrong => some (.placeOnlyByName s.name (wrong.map (·.name)))

/-- The values of the declared arguments; further places are never given. -/
def ownValues (s : Signature) (keywords : Entries Text Datum) : Entries Text Datum :=
  s.arguments.filterMap fun a =>
    match a.kind with
    | .names => none
    | .places => some (a.name, .list [])
    | _ => some (a.name, (valueIn keywords a).getD .null)

def refusal? (s : Signature) (keywords : Entries Text Datum) : Option CallFault :=
  (s.misfit? keywords).or ((s.missing? keywords false).or (s.missing? keywords true))

def receive (s : Signature) (call : Call) : Except CallFault Received :=
  match s.refusal? call.keywords with
  | some fault => .error fault
  | none => .ok {
      own := s.ownValues call.keywords
      further := if s.takesAny then s.strays call.keywords else []
      sources := call.sources }

def capitalized (name : Text) : Text :=
  (Text.pieces (· == '_') name).flatMap fun word => Text.upper (word.take 1) ++ word.drop 1

def commandName (routine : Text) : Text :=
  match Text.cut? ['_'] routine with
  | some (verb, noun) => capitalized verb ++ '-' :: capitalized noun
  | none => routine

/-- The parameters of the arguments from the one at `position` on. Switches have no place, and
neither have arguments that are given by name only. -/
def parametersFrom (aliases : Entries Text (List Text)) (help : Entries Text Text)
    (position : Nat) : List DeclaredArgument → List Parameter
  | [] => []
  | a :: rest =>
    if a.kind = .places || a.kind = .names then parametersFrom aliases help position rest
    else
      let isSwitch := a.type = .boolean
      let placed := isByPlace a && !isSwitch
      let name := capitalized a.name
      { name := name
        aliases := Parameter.sortedNames ((aliases.get? name).getD [])
        position := if placed then some position else none
        isSwitch := isSwitch
        type := a.type
        key := a.name
        description := (help.get? name).getD [] } ::
        parametersFrom aliases help (if placed then position + 1 else position) rest

def parameters (s : Signature) (aliases : Entries Text (List Text)) (help : Entries Text Text) :
    List Parameter :=
  parametersFrom aliases help 0 s.arguments

end Signature

structure Routine (σ : Type) where
  signature : Signature
  body : Received → σ → Outcome × σ

def Routine.action {σ : Type} (r : Routine σ) : Action σ where
  takesAny := r.signature.takesAny
  run call state :=
    match r.signature.receive call with
    | .ok received => r.body received state
    | .error fault => (.failed fault.fault, state)

structure Entry (σ : Type) where
  routine : Routine σ
  name : Option Text
  description : Text
  example? : Text
  origin : Text
  category : Option Text
  completers : List (Text × Provider σ)
  aliases : List Text
  argumentAliases : Entries Text (List Text)
  argumentHelp : Entries Text Text

/-- A missing or empty name is made from that of the routine. -/
def Entry.command {σ : Type} (e : Entry σ) : Command σ where
  name := match e.name with
    | some (c :: rest) => c :: rest
    | _ => Signature.commandName e.routine.signature.name
  description := Text.strip e.description
  example? := e.example?
  action := e.routine.action
  parameters := e.routine.signature.parameters e.argumentAliases e.argumentHelp
  origin := e.origin
  category := match e.category with
    | some (c :: rest) => c :: rest
    | _ => Command.general
  completers := e.completers
  aliases := e.aliases

end CommandShell
