import CommandShell.Number.Numeral

/-!
Enumerated types: a name and members with texts or whole numbers as values.
-/

set_option autoImplicit false

namespace CommandShell

inductive MemberValue where
  | text (s : Text)
  | integer (n : Int)
  deriving DecidableEq

namespace MemberValue

def print : MemberValue → Except Raised Text
  | .text s => .ok s
  | .integer n => Numeral.write n

def shown : MemberValue → Except Raised Text
  | .text s => .ok (Text.quoted s)
  | .integer n => Numeral.write n

end MemberValue

/-- Two enumerations with the same name and members are the same type. -/
structure Enumeration where
  name : Text
  members : List (Text × MemberValue)
  deriving DecidableEq

structure Member where
  type : Enumeration
  name : Text
  value : MemberValue
  deriving DecidableEq

namespace Enumeration

/-- The members in order. A member that repeats an earlier value is another name for it. -/
def distinct : List (Text × MemberValue) → List (Text × MemberValue)
  | [] => []
  | m :: rest => m :: (distinct rest).filter (·.2 ≠ m.2)

def all (e : Enumeration) : List Member :=
  (distinct e.members).map fun (name, value) => ⟨e, name, value⟩

def find? (e : Enumeration) (name : Text) : Option Member := do
  let (_, value) ← e.members.find? (·.1 = name)
  e.all.find? (·.value = value)

end Enumeration

namespace Member

/-- What is typed for a member: its value if that is a text, else its name. -/
def typed (m : Member) : Text :=
  match m.value with
  | .text s => s
  | .integer _ => m.name

def print (m : Member) : Text := m.type.name ++ '.' :: m.name

def shown (m : Member) : Except Raised Text := do
  let value ← m.value.shown
  pure ('<' :: m.print ++ ": ".toList ++ value ++ ['>'])

end Member

end CommandShell
