import CommandShell.Text.Basic

/-!
Escape sequences that style terminal text: adding them and taking them out.
-/

set_option autoImplicit false

namespace CommandShell.Ansi

def escape : Char := Char.ofNat 0x1b

def isArgument (c : Char) : Bool := c.isDigit || c == ';'

def afterSequence? : Text → Option Text
  | '[' :: s =>
    match s.dropWhile isArgument with
    | c :: rest => if c.isAlpha then some rest else none
    | [] => none
  | _ => none

theorem afterSequence?_length {s rest : Text} (h : afterSequence? s = some rest) :
    rest.length < s.length := by
  unfold afterSequence? at h
  split at h
  · rename_i s
    have := (List.dropWhile_suffix isArgument (l := s)).length_le
    split at h
    · rename_i heq
      split at h
      · simp_all; omega
      · simp at h
    · simp at h
  · simp at h

def strip (s : Text) : Text :=
  match s with
  | [] => []
  | c :: s =>
    if c == escape then
      match _h : afterSequence? s with
      | some rest => strip rest
      | none => c :: strip s
    else c :: strip s
termination_by s.length
decreasing_by
  · have := afterSequence?_length ‹_›
    simp; omega
  · simp
  · simp

def visibleLength (s : Text) : Nat := (strip s).length

def sequence (code : Text) : Text := escape :: '[' :: code ++ ['m']

def reset : Text := sequence "0".toList

def styles : List (Text × Text) :=
  [("reset", "0"), ("bold", "1"), ("dim", "2"), ("underline", "4"), ("red", "31"), ("green", "32"),
    ("yellow", "33"), ("blue", "34"), ("magenta", "35"), ("cyan", "36"), ("bright_black", "90"),
    ("bright_cyan", "96")].map fun (name, code) => (name.toList, code.toList)

def style? (name : Text) : Option Text := (styles.lookup name).map sequence

/-- The text between the given styles and a reset; unknown styles are left out, and without a
style the text is as it was. -/
def colorize (s : Text) (names : List Text) : Text :=
  match (names.filterMap style?).flatten with
  | [] => s
  | codes => codes ++ s ++ reset

end CommandShell.Ansi
