import CommandShell.Entries
import CommandShell.Text.Blank

/-!
Files of assignments: one `NAME=value` a line, comments after `#`, values in quotes if need be.
-/

set_option autoImplicit false

namespace CommandShell.Assignments

def isNameStart (c : Char) : Bool := c.isAlpha || c == '_'

def isNameChar (c : Char) : Bool := c.isAlphanum || c == '_'

def unquoted (s : Text) : Text :=
  match s.head?, s.getLast? with
  | some first, some last =>
    if first == last && (first == '\'' || first == '"') then (s.drop 1).dropLast else s
  | _, _ => s

def ofLine? (line : Text) : Option (Text × Text) :=
  match Text.strip line with
  | [] => none
  | c :: s =>
    if !isNameStart c then none
    else
      let name := c :: s.takeWhile isNameChar
      match Text.stripStart Text.isSpace (s.dropWhile isNameChar) with
      | '=' :: value => some (name, unquoted (Text.strip value))
      | _ => none

/-- The assignments of a file; of several to one name the last holds. -/
def read (file : Text) : Entries Text Text :=
  Entries.ofList ((Text.lines file).filterMap ofLine?)

end CommandShell.Assignments
