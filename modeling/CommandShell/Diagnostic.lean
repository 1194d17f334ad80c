import CommandShell.Datum.ValueType

/-!
What went wrong while a line was bound or completed. Only what escapes stops it.
-/

set_option autoImplicit false

namespace CommandShell

namespace Diagnostic

inductive Cause where
  | unknownParameter (typed : Text)
  | ambiguousParameter (typed : Text) (candidates : List Text)
  | duplicateParameter (typed : Text)
  | ambiguousMember (owner name : Text) (kinds : List Text)
  | noMetadata (command : Text)
  | undescribed (command : Text) (fault : Fault)
  | providerTimeout (parameter seconds : Text)
  | providerFailure (parameter : Text) (fault : Fault)
  | coercionFailure (raw owner member : Text) (fault : Fault)
  /-- no diagnostic, but what nothing catches -/
  | escaped (raised : Raised)
  deriving DecidableEq

def Cause.kind : Cause → Text
  | .unknownParameter _ => "unknown-parameter".toList
  | .ambiguousParameter .. => "ambiguous-parameter".toList
  | .duplicateParameter _ => "duplicate-parameter".toList
  | .ambiguousMember .. => "ambiguous-attached-member".toList
  | .noMetadata _ | .undescribed .. => "metadata-unavailable".toList
  | .providerTimeout .. => "provider-timeout".toList
  | .providerFailure .. => "provider-failure".toList
  | .coercionFailure .. => "coercion-failure".toList
  | .escaped raised => raised.kind.name

def Cause.message : Cause → Text
  | .unknownParameter typed =>
    "A parameter cannot be found that matches parameter name '".toList ++ typed ++ ['\'']
  | .ambiguousParameter typed candidates =>
    "Parameter '-".toList ++ typed ++ "' is ambiguous; possible matches: ".toList
      ++ Text.join ", ".toList candidates
  | .duplicateParameter typed =>
    "Parameter '-".toList ++ typed ++ "' was specified more than once".toList
  | .ambiguousMember owner name kinds =>
    '\'' :: owner ++ '.' :: name ++ "' is both a ".toList ++ Text.join " and ".toList kinds
      ++ "; add a Property or Event suffix".toList
  | .noMetadata command => "No metadata source to describe '".toList ++ command ++ ['\'']
  | .undescribed command fault =>
    "Cannot describe '".toList ++ command ++ "': ".toList ++ fault.report
  | .providerTimeout parameter seconds =>
    "Candidate provider for -".toList ++ parameter ++ " did not finish within ".toList
      ++ seconds ++ ['s']
  | .providerFailure parameter fault =>
    "Candidate provider for -".toList ++ parameter ++ " failed: ".toList ++ fault.report
  | .coercionFailure raw owner member fault =>
    "Cannot convert ".toList ++ Text.quoted raw ++ " for ".toList ++ owner ++ '.' :: member
      ++ ": ".toList ++ fault.message
  | .escaped raised => raised.innermost.message

/-- The cause made of a failure that is caught; making its text may fail in turn. -/
def Cause.tell (cause : Fault → Cause) (raised : Raised) : Cause :=
  match raised.told with
  | .ok fault => cause fault
  | .error inner => .escaped inner

end Diagnostic

structure Diagnostic where
  cause : Diagnostic.Cause
  /-- where the element at fault begins, if that is known -/
  offset : Option Nat
  deriving DecidableEq

def Diagnostic.raised? (d : Diagnostic) : Option Raised :=
  match d.cause with
  | .escaped raised => some raised
  | _ => none

/-- A result that comes with what was noted, unless something escapes. -/
def Diagnostic.outcome {α : Type} (noted : List Diagnostic) (result : α) : Except Raised α :=
  match noted.findSome? raised? with
  | some raised => .error raised
  | none => .ok result

def Diagnostic.text (d : Diagnostic) : Text :=
  d.cause.kind ++ ": ".toList ++ d.cause.message ++
    (match d.offset with
      | some n => " (at ".toList ++ Text.ofNat n ++ [')']
      | none => [])

end CommandShell
