import CommandShell.Number.Binary64
import CommandShell.Text.Basic

/-!
Decimal text of binary64 numbers: which digits, and how they are laid out.
-/

set_option autoImplicit false

namespace CommandShell

structure Decimal where
  digits : Nat
  power : Int
  deriving DecidableEq

namespace Decimal

open Binary64 (twoTo tenTo)

def compareScaled (a : Nat) (i : Int) (n : Nat) (j : Int) : Ordering :=
  compare (a * tenTo i.toNat * twoTo (-j).toNat) (n * twoTo j.toNat * tenTo (-i).toNat)

/-- The gap below the least mantissa of a binade is half the gap above it. -/
def narrowBelow (m : Nat) (e : Int) : Bool := m == twoTo 52 && e > Binary64.leastExponent

/-- The decimal lies among the reals that round to `m * 2^e`; the ends belong to it when `m` is
even. -/
def readsBack (m : Nat) (e : Int) (d : Decimal) : Bool :=
  let low :=
    compareScaled d.digits d.power (if narrowBelow m e then 4 * m - 1 else 4 * m - 2) (e - 2)
  let high := compareScaled d.digits d.power (4 * m + 2) (e - 2)
  let even := m % 2 == 0
  (low == .gt || (even && low == .eq)) && (high == .lt || (even && high == .eq))

def inUnits (m : Nat) (e power : Int) : Nat × Nat :=
  (m * twoTo e.toNat * tenTo (-power).toNat, twoTo (-e).toNat * tenTo power.toNat)

/-- The least power of ten above `m * 2^e`, counted up from an estimate. -/
def scaleFrom (m : Nat) (e : Int) : Nat → Int → Int
  | 0, k => k
  | tries + 1, k => if compareScaled 1 k m e == .gt then k else scaleFrom m e tries (k + 1)

def scale (m : Nat) (e : Int) : Int :=
  scaleFrom m e 4 ((((m.log2 : Int) + e) * 30103) / 100000 - 1)

/-- Of the two neighbours on a grid the nearer that reads back; a tie goes to the even one. -/
def onGrid? (m : Nat) (e power : Int) : Option Decimal :=
  let (n, d) := inUnits m e power
  let below : Decimal := ⟨n / d, power⟩
  let above : Decimal := ⟨n / d + 1, power⟩
  let first := if Binary64.nearest n d = n / d then below else above
  let second := if first = below then above else below
  if readsBack m e first then some first
  else if readsBack m e second then some second
  else none

def shortest (m : Nat) (e : Int) : Decimal :=
  let k := scale m e
  match (List.range 17).findSome? fun (n : Nat) => onGrid? m e (k - n - 1) with
  | some d => d
  | none => ⟨Binary64.nearest (inUnits m e (k - 17)).1 (inUnits m e (k - 17)).2, k - 17⟩

def significant (places : Nat) (m : Nat) (e : Int) : Decimal :=
  let k := scale m e
  ⟨Binary64.nearest (inUnits m e (k - places)).1 (inUnits m e (k - places)).2, k - places⟩

def trimmed : Nat → Decimal → Decimal
  | 0, d => d
  | count + 1, d => if d.digits % 10 = 0 then trimmed count ⟨d.digits / 10, d.power + 1⟩ else d

structure Layout where
  /-- leading digits at this power of ten and above are written with an exponent -/
  exponentFrom : Int
  /-- whole numbers end in a point and a zero -/
  pointZero : Bool

def plain : Layout := ⟨16, true⟩

def brief : Layout := ⟨6, false⟩

def exponentText (x : Int) : Text :=
  let digits := Text.ofNat x.natAbs
  ['e', if x < 0 then '-' else '+'] ++ (if digits.length < 2 then '0' :: digits else digits)

/-- Digits with a point; values below a ten-thousandth are written with an exponent. -/
def layOut (layout : Layout) (d : Decimal) : Text :=
  let digits := Text.ofNat d.digits
  let lead : Int := d.power + digits.length - 1
  if lead < -4 || lead ≥ layout.exponentFrom then
    digits.take 1 ++ (if digits.length > 1 then '.' :: digits.drop 1 else []) ++ exponentText lead
  else if lead < 0 then
    '0' :: '.' :: Text.repeated (-lead - 1).toNat '0' ++ digits
  else if d.power < 0 then
    digits.take (lead + 1).toNat ++ '.' :: digits.drop (lead + 1).toNat
  else
    digits ++ Text.repeated d.power.toNat '0' ++ (if layout.pointZero then ['.', '0'] else [])

end Decimal

namespace Binary64

def write (layout : Decimal.Layout) (digits : Nat → Int → Decimal) : Binary64 → Text
  | .nan => "nan".toList
  | .infinite negative => (if negative then ['-'] else []) ++ "inf".toList
  | .finite negative m e =>
    (if negative then ['-'] else []) ++
      Decimal.layOut layout (if m = 0 then ⟨0, 0⟩ else Decimal.trimmed 20 (digits m e))

/-- The fewest digits that read back, with an exponent from ten to the sixteenth on. -/
def text (x : Binary64) : Text := x.write Decimal.plain Decimal.shortest

def briefText (x : Binary64) : Text := x.write Decimal.brief (Decimal.significant 6)

end Binary64

end CommandShell
