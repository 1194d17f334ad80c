import CommandShell.Fault
import CommandShell.Text.Numeric
import CommandShell.Text.Blank

/-!
Whole numbers as they are typed: blanks around, a sign, decimal digits of any script, and single
underscores between digits. No number of too many digits is read or written.
-/

set_option autoImplicit false

namespace CommandShell.Numeral

def isBlank (c : Char) : Bool :=
  if c.val < 128 then c == ' ' || (9 ≤ c.val && c.val ≤ 13) else Text.isSpace c

/-- Digits with single underscores between them, and what follows; an underscore that no digit
follows, or that none precedes, makes the number unreadable. -/
def digitsFrom (afterDigit : Bool) : Text → Option (List Nat × Text)
  | [] => some ([], [])
  | c :: s =>
    match Text.digitValue? c with
    | some d => (digitsFrom true s).map fun (ds, rest) => (d :: ds, rest)
    | none =>
      if c == '_' then
        match afterDigit, s with
        | true, d :: _ => if Text.isDecimal d then digitsFrom false s else none
        | _, _ => none
      else some ([], c :: s)

def value (digits : List Nat) : Nat := digits.foldl (fun n d => 10 * n + d) 0

def sign : Text → Bool × Text
  | '-' :: s => (true, s)
  | '+' :: s => (false, s)
  | s => (false, s)

inductive Failure where
  | unreadable
  | tooLong (digits : Nat)
  deriving DecidableEq

def maxDigits : Nat := 4300

def signed (negative : Bool) (n : Nat) : Int := if negative then -n else n

def read (s : Text) : Except Failure Int :=
  let (negative, body) := sign (s.dropWhile isBlank)
  match digitsFrom false body with
  | none | some ([], _) => .error .unreadable
  | some (digits, rest) =>
    if digits.length > maxDigits then .error (.tooLong digits.length)
    else if rest.all isBlank then .ok (signed negative (value digits))
    else .error .unreadable

def unwritable : Fault :=
  ⟨.value, "Exceeds the limit (4300 digits) for integer string conversion; ".toList
    ++ "use sys.set_int_max_str_digits() to increase the limit".toList⟩

def write (n : Int) : Except Raised Text :=
  if (Text.ofNat n.natAbs).length ≤ maxDigits then .ok (Text.ofInt n) else .error unwritable

end CommandShell.Numeral
