import CommandShell.Command.Parameter
import CommandShell.Pool.Basic

/-!
Commands: what they are called, what they take and what running them does.
-/

set_option autoImplicit false

namespace CommandShell

inductive Outcome where
  | value (d : Datum)
  | result (ok : Bool) (message : Text)
  | failed (raised : Raised)
  /-- the session is to end -/
  | exit

structure Call where
  keywords : Entries Text Datum
  /-- the variables that the values of keywords come from -/
  sources : Entries Text Source

structure Action (σ : Type) where
  /-- keywords beyond the declared parameters are accepted -/
  takesAny : Bool
  run : Call → σ → Outcome × σ

structure Command (σ : Type) where
  name : Text
  description : Text
  example? : Text
  action : Action σ
  parameters : List Parameter
  origin : Text
  category : Text
  completers : List (Text × Provider σ)
  aliases : List Text

namespace Command

variable {σ : Type}

def parameter? (c : Command σ) (name : Text) : Option Parameter :=
  c.parameters.find? fun p => Text.lower p.name = Text.lower name

def completer? (c : Command σ) (name : Text) : Option (Provider σ) :=
  (c.completers.find? fun entry => Text.lower entry.1 = Text.lower name).map (·.2)

def general : Text := "general".toList

def typeLabel (type : ValueType) : Text := Text.lower type.name

def usageOf (p : Parameter) : Text :=
  if p.isSwitch then "[-".toList ++ p.name ++ [']']
  else if p.position.isSome then "[-".toList ++ p.name ++ "] <".toList ++ typeLabel p.type ++ ['>']
  else "[-".toList ++ p.name ++ " <".toList ++ typeLabel p.type ++ ">]".toList

def usage (c : Command σ) : Text := Text.join [' '] (c.name :: c.parameters.map usageOf)

end Command

end CommandShell
