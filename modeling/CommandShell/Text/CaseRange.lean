import CommandShell.Text.Basic

/-!
Case mappings of one character to one character, kept as runs with a common distance.
-/

set_option autoImplicit false

namespace CommandShell.Text

/-- Every `step`-th code point from `first` to `last` maps to the one `distance` further on. -/
structure CaseRange where
  first : Nat
  last : Nat
  step : Nat
  distance : Int

def CaseRange.holds (r : CaseRange) (n : Nat) : Bool :=
  r.first ≤ n && n ≤ r.last && (n - r.first) % r.step == 0

def CaseRange.apply (table : List CaseRange) (c : Char) : Char :=
  match table.find? (·.holds c.toNat) with
  | some r => Char.ofNat (Int.toNat (c.toNat + r.distance))
  | none => c

end CommandShell.Text
