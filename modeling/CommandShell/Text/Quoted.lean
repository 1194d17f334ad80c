import CommandShell.Text.Printable

/-!
Texts as messages show them: between quotes, with what cannot be shown written as escapes.
-/

set_option autoImplicit false

namespace CommandShell.Text

def hexDigit (n : Nat) : Char := "0123456789abcdef".toList.getD n '0'

def hex : Nat → Nat → Text
  | 0, _ => []
  | width + 1, n => hex width (n / 16) ++ [hexDigit (n % 16)]

def escaped (quote c : Char) : Text :=
  if c == quote || c == '\\' then ['\\', c]
  else if c == '\n' then ['\\', 'n']
  else if c == '\r' then ['\\', 'r']
  else if c == '\t' then ['\\', 't']
  else if isPrintable c then [c]
  else if c.toNat < 0x100 then '\\' :: 'x' :: hex 2 c.toNat
  else if c.toNat < 0x10000 then '\\' :: 'u' :: hex 4 c.toNat
  else '\\' :: 'U' :: hex 8 c.toNat

/-- Single quotes, unless the text has one and no double quote. -/
def quotedBy (s : Text) : Char := if s.contains '\'' && !s.contains '"' then '"' else '\''

def quoted (s : Text) : Text :=
  [quotedBy s] ++ s.flatMap (escaped (quotedBy s)) ++ [quotedBy s]

end CommandShell.Text
