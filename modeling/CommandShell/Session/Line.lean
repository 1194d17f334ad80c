import CommandShell.Binding.Keywords
import CommandShell.Session.Help

/-!
Running a line: statements one after another, each an assignment, a built-in verb or a command.
-/

set_option autoImplicit false

namespace CommandShell

structure Session (σ : Type) where
  vars : Variables
  /-- how often each variable has been assigned -/
  assigned : Entries Text Nat
  /-- what commands act on -/
  state : σ
  /-- how often the screen has been cleared -/
  clears : Nat

structure Shell (σ : Type) where
  registry : Registry σ
  types : TypeRegistry

inductive LineFault where
  | syntaxFault (fault : SyntaxFault)
  | missingCommand (operator : Text)
  | missingValue (name : Text)
  | unsupported (operators : List Text)
  | strayComma
  | unknownCommand (name similar : Text)
  | misused (message usage : Text)
  | failed (fault : Fault)
  deriving DecidableEq

namespace LineFault

def detail : LineFault → Text
  | .syntaxFault fault => "Syntax: ".toList ++ fault.message
  | .missingCommand operator =>
    "Syntax: operator '".toList ++ operator ++ "' missing a command.".toList
  | .missingValue name => "Missing value in assignment to $".toList ++ name ++ ['.']
  | .unsupported operators => "Unsupported operator: ".toList ++ Text.join [' '] operators
  | .strayComma => "Syntax: missing command before ','.".toList
  | .unknownCommand name similar =>
    "Unknown command: ".toList ++ name ++ '.' :: similar ++ ' ' :: Help.hint
  | .misused message usage => message ++ "\nUsage: ".toList ++ usage
  | .failed fault => fault.report

def marker : Text := "[error]".toList

def message (f : LineFault) : Text := marker ++ ' ' :: f.detail

end LineFault

/-- An output that begins with the error marker, in any case and after blanks, is a failure. -/
def isFailure (output : Text) : Bool :=
  Text.startsWith (Text.lower (Text.stripStart Text.isSpace output)) LineFault.marker

namespace Statement

def separators : List Text := [[';'], ['\n'], ['&', '&'], ['|', '|']]

def isSeparator (t : Token) : Bool := t.kind == .operator && separators.contains t.value

def split (before : Option Text) : List Token → List (Option Text × List Token)
  | [] => [(before, [])]
  | t :: ts =>
    if t.kind == .endOfInput then [(before, [])]
    else if isSeparator t then (before, []) :: split (some t.value) ts
    else match split before ts with
      | [] => [(before, [t])]
      | (operator, tokens) :: later => (operator, t :: tokens) :: later

def isConditional (operator : Option Text) : Bool :=
  operator == some ['&', '&'] || operator == some ['|', '|']

end Statement

namespace Session

variable {σ : Type}

/-- What running a statement comes to: output and success, the end of the session, or something
that nothing catches. -/
inductive Ran (σ : Type) where
  | done (output : Option Text) (ok : Bool) (session : Session σ)
  | exited (session : Session σ)
  | raised (raised : Raised) (session : Session σ)

def start (vars : Variables) (state : σ) : Session σ := ⟨vars, [], state, 0⟩

def refused (session : Session σ) (fault : LineFault) : Ran σ :=
  .done (some fault.message) false session

def literal (t : Token) : Datum :=
  if t.kind = .number then
    match Binary64.read? t.value with
    | some x =>
      match x.toInt? with
      | some n => if t.value.contains '.' then .number x else .integer n
      | none => .number x
    | none => .text t.value
  else .text t.value

def put (session : Session σ) (name : Text) (d : Datum) : Session σ :=
  { session with
    vars := session.vars.set name d
    assigned := session.assigned.set name ((session.assigned.get? name).getD 0 + 1) }

def assign (session : Session σ) (name : Text) (tokens : List Token) : Ran σ :=
  match (tokens.filter fun t => !t.isOperator [',']).map literal with
  | [] => session.refused (.missingValue name)
  | [d] => .done none true (session.put name d)
  | several => .done none true (session.put name (.list several))

def misused (session : Session σ) (c : Command σ) (fault : Fault) : Ran σ :=
  session.refused (.misused fault.message c.usage)

def caught (session : Session σ) (c : Command σ) (raised : Raised) : Ran σ :=
  match raised.told with
  | .ok fault =>
    if fault.kind.isA .type then session.misused c fault else session.refused (.failed fault)
  | .error inner => .raised inner session

def report (session : Session σ) (c : Command σ) : Outcome → Ran σ
  | .exit => .exited session
  | .failed raised => session.caught c raised
  | .result ok [] => .done none ok session
  | .result ok message => .done (some message) (ok && !isFailure message) session
  | .value .null => .done none true session
  | .value d =>
    match d.print with
    | .ok output => .done (some output) (!isFailure output) session
    | .error raised => .raised raised session

/-- Runs a command on a binding. The keyword `self` stands for the command already. -/
def invoke (session : Session σ) (c : Command σ) (b : Binding) : Ran σ :=
  match b.outcome with
  | .error raised => .raised raised session
  | .ok b =>
    match b.keywords c session.vars with
    | .error fault => session.caught c fault.raised
    | .ok keywords =>
      if !b.attached.isEmpty && !c.action.takesAny then
        session.caught c
          (InvocationFault.attachedRefused c.name (b.attached.map (·.1))).raised
      else if keywords.has "self".toList then
        session.caught c InvocationFault.selfGiven.raised
      else
        let call := ⟨keywords, b.sources c session.vars session.assigned⟩
        let (outcome, state) := c.action.run call session.state
        { session with state := state }.report c outcome

inductive Verb where
  | help
  | leave
  | clear
  deriving DecidableEq

def Verb.of? (name : Text) : Option Verb :=
  let lowered := Text.lower name
  if lowered = "exit".toList || lowered = "quit".toList then some .leave
  else if lowered = "clear".toList || lowered = "cls".toList then some .clear
  else if lowered = "help".toList then some .help
  else none

def dispatch (shell : Shell σ) (session : Session σ) (command : Element)
    (elements : List Element) : Ran σ :=
  match Verb.of? command.text with
  | some .leave => .exited session
  | some .clear => .done none true { session with clears := session.clears + 1 }
  | some .help =>
    match elements[1]? with
    | none => .done (some (Help.overview shell.registry)) true session
    | some target => .done (some (Help.on shell.registry target.text)) true session
  | none =>
    match shell.registry.get? command.text with
    | none =>
      session.refused (.unknownCommand command.text (Help.similar shell.registry command.text))
    | some c => session.invoke c (Binding.bind elements (-1) c.parameters (some shell.types))

def unsupported (tokens : List Token) : List Text :=
  Parameter.sortedNames ((tokens.filter Statement.isBoundary).map (·.value))

def runStatement (shell : Shell σ) (session : Session σ) (tokens : List Token) : Ran σ :=
  let run : Ran σ :=
    match unsupported tokens with
    | [] =>
      match Element.ofTokens tokens with
      | [] => session.refused .strayComma
      | command :: rest => dispatch shell session command (command :: rest)
    | operators => session.refused (.unsupported operators)
  match tokens with
  | [] => .done none true session
  | first :: second :: rest =>
    if first.kind = .reference && second.value = ['='] then session.assign first.value rest else run
  | [_] => run

inductive LineResult (σ : Type) where
  | printed (output : Option Text) (session : Session σ)
  | exited (session : Session σ)
  | raised (raised : Raised) (session : Session σ)

def joined : List Text → Option Text
  | [] => none
  | outputs => some (Text.join ['\n'] outputs)

/-- Runs statements in order. A conditional separator needs a command on both sides; `ok` is the
success of the last statement that ran. -/
def runStatements (shell : Shell σ) (outputs : List Text) (ok : Bool) (session : Session σ) :
    List (Option Text × List Token) → LineResult σ
  | [] => .printed (joined outputs) session
  | (operator, tokens) :: rest =>
    if tokens.isEmpty then
      match operator with
      | none =>
        match rest with
        | (some next, _) :: _ =>
          if Statement.isConditional (some next) then
            .printed (some (LineFault.missingCommand next).message) session
          else runStatements shell outputs ok session rest
        | _ => runStatements shell outputs ok session rest
      | some operator =>
        if Statement.isConditional (some operator) then
          .printed (some (LineFault.missingCommand operator).message) session
        else runStatements shell outputs ok session rest
    else if operator = some ['&', '&'] && !ok || operator = some ['|', '|'] && ok then
      runStatements shell outputs ok session rest
    else
      match runStatement shell session tokens with
      | .exited session => .exited session
      | .raised raised session => .raised raised session
      | .done output ok session => runStatements shell (outputs ++ output.toList) ok session rest

def runLine (shell : Shell σ) (session : Session σ) (line : Text) : LineResult σ :=
  match Token.scanStrict line with
  | .error fault => .printed (some (LineFault.syntaxFault fault).message) session
  | .ok tokens => runStatements shell [] true session (Statement.split none tokens)

end Session

end CommandShell
