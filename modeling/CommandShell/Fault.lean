import CommandShell.Text.Quoted

/-!
Failures that are reported with the name of their kind, and what is raised when the report itself
fails.
-/

set_option autoImplicit false

namespace CommandShell

inductive FaultKind where
  | value
  | type
  | key
  | runtime
  | attribute
  | overflow
  | recursion
  | missingModule
  | missingFile
  | metadata
  | other (name : Text)
  /-- a class of its own that is made from another -/
  | derived (name : Text) (base : FaultKind)
  deriving DecidableEq

namespace FaultKind

def name : FaultKind → Text
  | .value => "ValueError".toList
  | .type => "TypeError".toList
  | .key => "KeyError".toList
  | .runtime => "RuntimeError".toList
  | .attribute => "AttributeError".toList
  | .overflow => "OverflowError".toList
  | .recursion => "RecursionError".toList
  | .missingModule => "ModuleNotFoundError".toList
  | .missingFile => "FileNotFoundError".toList
  | .metadata => "MetadataUnavailableError".toList
  | .other name => name
  | .derived name _ => name

def isA : FaultKind → FaultKind → Bool
  | .metadata, wanted => wanted = .metadata || wanted = .key
  | .recursion, wanted => wanted = .recursion || wanted = .runtime
  | .derived name base, wanted => wanted = .derived name base || base.isA wanted
  | kind, wanted => wanted = kind

def isMisfit (kind : FaultKind) : Bool := kind.isA .value || kind.isA .type

end FaultKind

structure Fault where
  kind : FaultKind
  message : Text
  deriving DecidableEq

namespace Fault

def report (f : Fault) : Text := f.kind.name ++ ": ".toList ++ f.message

def ofKey (key : Text) : Fault := ⟨.key, Text.quoted key⟩

end Fault

inductive Raised where
  | fault (f : Fault)
  /-- a failure without a text: making the text raises in turn -/
  | mute (kind : FaultKind) (inner : Raised)
  deriving DecidableEq

namespace Raised

instance : Coe Fault Raised := ⟨.fault⟩

def kind : Raised → FaultKind
  | .fault f => f.kind
  | .mute kind _ => kind

@[simp] theorem kind_fault (f : Fault) : (fault f).kind = f.kind := rfl

/-- The failure with its text, for those who report it. -/
def told : Raised → Except Raised Fault
  | .fault f => .ok f
  | .mute _ inner => .error inner

/-- The failure that is told when each one that cannot be gives way to what it raises. -/
def innermost : Raised → Fault
  | .fault f => f
  | .mute _ inner => inner.innermost

end Raised

theorem of_bind_eq_ok {ε α β : Type} {x : Except ε α} {f : α → Except ε β} {b : β}
    (h : x >>= f = .ok b) : ∃ a, x = .ok a ∧ f a = .ok b := by
  cases x with
  | error fault => cases h
  | ok a => exact ⟨a, rfl, h⟩

end CommandShell
