import CommandShell.Text.Basic

/-!
White space and line ends.
-/

set_option autoImplicit false

namespace CommandShell.Text

def spaceRanges : List (Nat × Nat) :=
  [(0x85, 0x85), (0xa0, 0xa0), (0x1680, 0x1680), (0x2000, 0x200a), (0x2028, 0x2029),
    (0x202f, 0x202f), (0x205f, 0x205f), (0x3000, 0x3000)]

/-- White space: blanks, tabs, line ends of every kind and the four separators of ASCII. -/
def isSpace (c : Char) : Bool :=
  if c.val < 128 then c == ' ' || (9 ≤ c.val && c.val ≤ 13) || (28 ≤ c.val && c.val ≤ 31)
  else inRanges spaceRanges c.toNat

def strip (s : Text) : Text := stripBy isSpace s

def isLineEnd (c : Char) : Bool :=
  (10 ≤ c.val && c.val ≤ 13) || (28 ≤ c.val && c.val ≤ 30) ||
    c.val == 0x85 || c.val == 0x2028 || c.val == 0x2029

/-- The lines of a text without their ends; a carriage return and a line feed end one line. -/
def lines : Text → List Text
  | [] => []
  | '\r' :: '\n' :: s => [] :: lines s
  | c :: s =>
    if isLineEnd c then [] :: lines s
    else match lines s with
      | [] => [[c]]
      | line :: rest => (c :: line) :: rest

end CommandShell.Text
