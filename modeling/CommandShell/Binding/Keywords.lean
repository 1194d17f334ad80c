import CommandShell.Binding.Basic
import CommandShell.Command.Basic

/-!
The keywords that a clean binding passes to its command, and where their values come from.
-/

set_option autoImplicit false

namespace CommandShell

inductive InvocationFault where
  | unclean (causes : List Diagnostic.Cause)
  | tooManyValues
  | unconvertible (parameter : Text) (cause : Fault)
  | attachedRefused (command : Text) (members : List Text)
  | selfGiven
  /-- what a conversion raises and is no misfit -/
  | escaped (raised : Raised)
  deriving DecidableEq

namespace InvocationFault

def message : InvocationFault → Text
  | .unclean causes => Text.join "; ".toList (causes.map (·.message))
  | .tooManyValues => "Too many positional arguments.".toList
  | .unconvertible parameter cause =>
    "Cannot convert value for -".toList ++ parameter ++ ": ".toList ++ cause.message
  | .attachedRefused command members =>
    command ++ " does not accept attached members (".toList ++ Text.join ", ".toList members
      ++ [')']
  | .selfGiven => "Command.invoke() got multiple values for argument 'self'".toList
  | .escaped raised => raised.innermost.message

def raised : InvocationFault → Raised
  | .escaped raised => raised
  | f => .fault ⟨.type, f.message⟩

/-- A value that does not fit its parameter is no fit for the call; other failures stay what they
are. -/
def ofConversion (parameter : Text) (raised : Raised) : InvocationFault :=
  if raised.kind.isMisfit then
    match raised.told with
    | .ok cause => .unconvertible parameter cause
    | .error inner => .escaped inner
  else .escaped raised

end InvocationFault

namespace Binding

variable {σ : Type}

def keywordsFrom (c : Command σ) (b : Binding) (vars : Variables)
    (keywords : Entries Text Datum) :
    List (Text × Argument) → Except InvocationFault (Entries Text Datum)
  | [] => .ok keywords
  | (name, argument) :: rest =>
    match b.attached.get? name with
    | some m => keywordsFrom c b vars (keywords.set name m.value) rest
    | none =>
      match c.parameter? name with
      | none => keywordsFrom c b vars keywords rest
      | some p =>
        match p.type.coerce (argument.resolve vars) with
        | .ok d => keywordsFrom c b vars (keywords.set p.keyword d) rest
        | .error raised => .error (.ofConversion p.name raised)

def keywords (c : Command σ) (b : Binding) (vars : Variables) :
    Except InvocationFault (Entries Text Datum) :=
  if !b.errors.isEmpty then .error (.unclean (b.errors.map (·.cause)))
  else if !b.positional.isEmpty then .error .tooManyValues
  else keywordsFrom c b vars [] b.named

def sources (c : Command σ) (b : Binding) (vars : Variables) (assigned : Entries Text Nat) :
    Entries Text Source :=
  Entries.ofList (b.named.filterMap fun (name, argument) => do
    let p ← c.parameter? name
    let held ← argument.heldBy? vars
    pure (p.keyword, ⟨held, (assigned.get? held).getD 0⟩))

end Binding

end CommandShell
