import CommandShell.Display.Ansi
import CommandShell.Session.Line

/-!
Interaction: lines are run one after another until one of them ends the session.
-/

set_option autoImplicit false

namespace CommandShell.Session

variable {σ : Type}

def written (output : Option Text) : Text :=
  match output with
  | none | some [] => []
  | some output =>
    (if isFailure output then Ansi.colorize output ["red".toList] else output) ++ ['\n']

/-- What one line comes to: what is written, the session, and whether it goes on. -/
structure Turn (σ : Type) where
  output : Text
  session : Session σ
  goesOn : Bool
  /-- what ends the program with a failure, if anything -/
  raised : Option Raised

def turn (shell : Shell σ) (session : Session σ) (line : Text) : Turn σ :=
  match runLine shell session line with
  | .printed output session => ⟨written output, session, true, none⟩
  | .exited session => ⟨[], session, false, none⟩
  | .raised raised session => ⟨[], session, false, some raised⟩

/-- Runs lines to their end or to the end of the session, whichever comes first; an interrupted line
is passed over. The result says how many lines are left. -/
def runLines (shell : Shell σ) (session : Session σ) :
    List (Option Text) → Text × Session σ × Nat
  | [] => ([], session, 0)
  | none :: rest => runLines shell session rest
  | some line :: rest =>
    let turn := turn shell session line
    if turn.goesOn then
      let (output, session, left) := runLines shell turn.session rest
      (turn.output ++ output, session, left)
    else (turn.output, turn.session, rest.length)

end CommandShell.Session
