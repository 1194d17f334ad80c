import CommandShell.Datum.ValueType

/-!
Declared parameters, and which of them a typed name means.
-/

set_option autoImplicit false

namespace CommandShell

/-- A declared parameter. `key` is the keyword its value is passed under, if that is not its
name. -/
structure Parameter where
  name : Text
  /-- other names, in order and without repetition -/
  aliases : List Text
  /-- the place among the arguments without a name -/
  position : Option Int
  isSwitch : Bool
  type : ValueType
  key : Text
  description : Text
  deriving BEq

namespace Parameter

def sortedNames (names : List Text) : List Text :=
  (names.foldl (fun found name => if found.contains name then found else found ++ [name])
    []).mergeSort Text.le

def keyword (p : Parameter) : Text := if p.key.isEmpty then p.name else p.key

def names (p : Parameter) : List Text := p.name :: p.aliases

def isNamed (p : Parameter) (typed : Text) : Bool :=
  p.names.any fun name => Text.lower name = Text.lower typed

def isAbbreviatedBy (p : Parameter) (typed : Text) : Bool :=
  p.names.any fun name => Text.startsWith (Text.lower name) (Text.lower typed)

/-- The parameters of exactly that name, if there are any; else those that it abbreviates. So a
parameter is never shadowed by a longer one. -/
def matching (typed : Text) (candidates : List Parameter) : List Parameter :=
  match candidates.filter (·.isNamed typed) with
  | [] => candidates.filter (·.isAbbreviatedBy typed)
  | exact => exact

end Parameter

end CommandShell
