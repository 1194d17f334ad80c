import CommandShell.Token.Scan

/-!
Statements: the runs of tokens between separators, and the one that a cursor stands in.
-/

set_option autoImplicit false

namespace CommandShell.Statement

def isBoundary (t : Token) : Bool := t.kind == .operator && t.value != [',']

def segments (start : Nat) : List Token → List (Nat × List Token)
  | [] => [(start, [])]
  | t :: ts =>
    if t.kind == .endOfInput then [(start, [])]
    else if isBoundary t then (start, []) :: segments t.stop ts
    else match segments start ts with
      | [] => [(start, [t])]
      | (first, tokens) :: later => (first, t :: tokens) :: later

/-- The statement that contains the cursor; right after a separator it is the one that follows. -/
def at? (tokens : List Token) (cursor : Int) : List Token :=
  let all := segments 0 tokens
  match (all.filter fun segment => (segment.1 : Int) ≤ cursor).getLast? with
  | some segment => segment.2
  | none => (all.head?.map (·.2)).getD []

end CommandShell.Statement
