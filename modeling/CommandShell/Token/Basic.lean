import CommandShell.Text.Numeric

/-!
Tokens of a command line, and the characters that have a meaning of their own.
-/

set_option autoImplicit false

namespace CommandShell

inductive TokenKind where
  | bare
  | number
  | verbatim
  | expandable
  | reference
  | parameter
  | operator
  | endOfInput
  deriving DecidableEq

/-- One token. `text` is what was typed and `value` what it stands for: a parameter without its
dash, a quoted text without its quotes, a variable without its sign. -/
structure Token where
  kind : TokenKind
  text : Text
  value : Text
  start : Nat
  /-- the value of `-Name:value` -/
  inline : Option Text
  /-- nothing in it would be expanded when it is run -/
  literal : Bool
  deriving DecidableEq

namespace Token

def stop (t : Token) : Nat := t.start + t.text.length

def isOperator (t : Token) (sign : Text) : Bool := t.kind == .operator && t.value == sign

end Token

namespace Sign

def isDash (c : Char) : Bool :=
  c == '-' || c.toNat == 0x2013 || c.toNat == 0x2014 || c.toNat == 0x2015

def isSingleQuote (c : Char) : Bool := c == '\'' || (0x2018 ≤ c.toNat && c.toNat ≤ 0x201b)

def isDoubleQuote (c : Char) : Bool := c == '"' || (0x201c ≤ c.toNat && c.toNat ≤ 0x201e)

def isBlank (c : Char) : Bool := c == ' ' || c == '\t' || c == '\r'

def isOperator (c : Char) : Bool := ";|&,(){}<>\n".toList.contains c

def backtick : Char := Char.ofNat 96

def unescaped (c : Char) : Char :=
  if c == 'n' then '\n'
  else if c == 't' then '\t'
  else if c == 'r' then '\r'
  else if c == '0' then Char.ofNat 0
  else if c == 'a' then Char.ofNat 7
  else c

def startsParameter (c : Char) : Bool := Text.isAlphabetic c || c == '_' || c == '?'

def isParameterChar (c : Char) : Bool := Text.isAlphanumeric c || c == '_' || c == '-' || c == '?'

def isReferenceChar (c : Char) : Bool := Text.isAlphanumeric c || c == '_' || c == ':' || c == '?'

end Sign

end CommandShell
