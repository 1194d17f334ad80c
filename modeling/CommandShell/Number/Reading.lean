import CommandShell.Number.Binary64
import CommandShell.Number.Numeral

/-!
Numbers with fraction and exponent as they are typed.
-/

set_option autoImplicit false

namespace CommandShell.Binary64

def fraction (s : Text) : Option (List Nat × Text) :=
  match s with
  | '.' :: rest => Numeral.digitsFrom false rest
  | _ => some ([], s)

def exponentPart (s : Text) : Option (Int × Text) :=
  match s with
  | c :: rest =>
    if c == 'e' || c == 'E' then
      let (negative, body) := Numeral.sign rest
      match Numeral.digitsFrom false body with
      | some (d :: ds, rest) => some (Numeral.signed negative (Numeral.value (d :: ds)), rest)
      | _ => none
    else some (0, s)
  | [] => some (0, [])

def decimalAt (negative : Bool) (s : Text) : Option (Binary64 × Text) := do
  let (whole, rest) ← Numeral.digitsFrom false s
  let (part, rest) ← fraction rest
  if whole.isEmpty && part.isEmpty then none
  else
    let (exponent, rest) ← exponentPart rest
    let digits := (whole ++ part).dropWhile (· == 0)
    pure (ofDecimal negative (Numeral.value digits) digits.length (exponent - part.length), rest)

def named? (negative : Bool) (s : Text) : Option Binary64 :=
  let name := s.map Char.toLower
  if name = "nan".toList then some .nan
  else if name = "inf".toList || name = "infinity".toList then some (.infinite negative)
  else none

def read? (s : Text) : Option Binary64 :=
  let body := Text.stripBy Numeral.isBlank s
  let (negative, body) := Numeral.sign body
  match named? negative body with
  | some x => some x
  | none =>
    match decimalAt negative body with
    | some (x, []) => some x
    | _ => none

end CommandShell.Binary64
