import CommandShell.Datum.Basic
import CommandShell.Text.Lowercase

/-!
Arguments: values that are known, and variable references that are looked up once, when somebody
first asks.
-/

set_option autoImplicit false

namespace CommandShell

abbrev Variables := Entries Text Datum

namespace Variables

/-- The variable of that name, else the first of that name in another case. -/
def entry? (vars : Variables) (name : Text) : Option (Text × Datum) :=
  match Entries.get? vars name with
  | some d => some (name, d)
  | none => List.find? (fun entry => Text.lower entry.1 = Text.lower name) vars

def value (vars : Variables) (name : Text) : Datum :=
  match vars.entry? name with
  | some entry => entry.2
  | none => .null

end Variables

/-- Where a value comes from: a variable, and how often that has been assigned. -/
structure Source where
  name : Text
  assignments : Nat
  deriving DecidableEq

inductive Argument where
  | known (d : Datum)
  /-- a variable, and its value once it has been asked for -/
  | deferred (name : Text) (settled : Option Datum)

namespace Argument

def resolve (vars : Variables) : Argument → Datum
  | .known d => d
  | .deferred _ (some d) => d
  | .deferred name none => vars.value name

def heldBy? (vars : Variables) : Argument → Option Text
  | .deferred name none => (vars.entry? name).map (·.1)
  | _ => none

/-- The argument after it has been asked for; later changes of the variable do not show. -/
def settle (vars : Variables) : Argument → Argument
  | .known d => .known d
  | .deferred name settled => .deferred name (some ((deferred name settled).resolve vars))

def shown : Argument → Except Raised Text
  | .known d => do pure ("Literal(".toList ++ (← d.shown) ++ [')'])
  | .deferred name settled => do
    let value ← match settled with
      | some d => d.shown
      | none => pure "<pending>".toList
    pure ("Deferred($".toList ++ name ++ '=' :: value ++ [')'])

def automatic? (name : Text) : Option Datum :=
  let lowered := Text.lower name
  if lowered = "true".toList then some (.boolean true)
  else if lowered = "false".toList then some (.boolean false)
  else if lowered = "null".toList then some .null
  else none

end Argument

end CommandShell
