/-!
Numbers of the binary64 format, as a sign, a mantissa and a power of two, so that reading, rounding
and comparing them is exact arithmetic on whole numbers.
-/

set_option autoImplicit false

namespace CommandShell

/-- A finite number is its mantissa times two to its exponent; zeros keep their sign. -/
inductive Binary64 where
  | nan
  | infinite (negative : Bool)
  | finite (negative : Bool) (mantissa : Nat) (exponent : Int)
  deriving DecidableEq

namespace Binary64

def twoTo (n : Nat) : Nat := Nat.pow 2 n

def tenTo (n : Nat) : Nat := Nat.pow 10 n

def leastExponent : Int := -1074

def greatestExponent : Int := 971

def zero (negative : Bool) : Binary64 := .finite negative 0 leastExponent

/-- A quotient to the nearest whole number; a half goes to the even neighbour. -/
def nearest (num den : Nat) : Nat :=
  let q := num / den
  let r := num % den
  if 2 * r < den then q else if den < 2 * r then q + 1 else if q % 2 = 0 then q else q + 1

def inUnits (num den : Nat) (exponent : Int) : Nat × Nat :=
  (num * twoTo (-exponent).toNat, den * twoTo exponent.toNat)

def exponentOf (num den : Nat) : Int :=
  let low := max ((num.log2 : Int) - den.log2 - 53) leastExponent
  let (n, d) := inUnits num den low
  if n / d < twoTo 53 then low else low + 1

def ofRatio (negative : Bool) (num den : Nat) : Binary64 :=
  if num = 0 then zero negative
  else
    let e := exponentOf num den
    let (n, d) := inUnits num den e
    let m := nearest n d
    let (m, e) := if m = twoTo 53 then (twoTo 52, e + 1) else (m, e)
    if e > greatestExponent then .infinite negative else .finite negative m e

def ofInt (n : Int) : Binary64 := ofRatio (n < 0) n.natAbs 1

/-- The number nearest to `digits` times ten to `power`, where `digits` has `count` digits. Far
outside the range of the format no power of ten is computed. -/
def ofDecimal (negative : Bool) (digits count : Nat) (power : Int) : Binary64 :=
  if digits = 0 then zero negative
  else if (count : Int) + power < -400 then zero negative
  else if power > 400 then .infinite negative
  else ofRatio negative (digits * tenTo power.toNat) (tenTo (-power).toNat)

def toInt? : Binary64 → Option Int
  | .finite negative m e =>
    let n := m * twoTo e.toNat
    let d := twoTo (-e).toNat
    if n % d = 0 then some (if negative then -(n / d : Nat) else (n / d : Nat)) else none
  | _ => none

def isZero : Binary64 → Bool
  | .finite _ 0 _ => true
  | _ => false

def isPositive : Binary64 → Bool
  | .nan => false
  | .infinite negative => !negative
  | .finite negative m _ => !negative && m != 0

/-- Zero or below; not a number is neither this nor positive. -/
def isAtMostZero : Binary64 → Bool
  | .nan => false
  | x => !x.isPositive

def isAtLeast (n : Nat) : Binary64 → Bool
  | .nan => false
  | .infinite negative => !negative
  | .finite negative m e => (n = 0 || !negative) && n * twoTo (-e).toNat ≤ m * twoTo e.toNat

end Binary64

end CommandShell
