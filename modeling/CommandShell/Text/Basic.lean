/-!
Texts as lists of characters, so that offsets count characters, and the operations on them that
the rest of the library uses.
-/

set_option autoImplicit false

namespace CommandShell

abbrev Text := List Char

namespace Text

def inRanges (table : List (Nat × Nat)) (n : Nat) : Bool :=
  table.any fun range => range.1 ≤ n && n ≤ range.2

def startsWith (s start : Text) : Bool := start.isPrefixOf s

def endsWith (s ending : Text) : Bool := ending.isSuffixOf s

def join (separator : Text) (parts : List Text) : Text := separator.intercalate parts

@[simp] theorem join_nil (separator : Text) : join separator [] = [] := rfl

theorem join_cons (separator part : Text) (parts : List Text) :
    join separator (part :: parts) = part ++ parts.flatMap (separator ++ ·) := by
  induction parts generalizing part with
  | nil => simp [join, List.intercalate]
  | cons next parts ih =>
    have hstep : join separator (part :: next :: parts)
        = part ++ (separator ++ join separator (next :: parts)) := by
      simp [join, List.intercalate, List.intersperse]
    rw [hstep, ih, List.flatMap_cons, List.append_assoc]

def le : Text → Text → Bool
  | [], _ => true
  | _ :: _, [] => false
  | a :: s, b :: t => if a = b then le s t else a < b

def ofNat (n : Nat) : Text := Nat.toDigits 10 n

def ofInt : Int → Text
  | .ofNat n => ofNat n
  | .negSucc n => '-' :: ofNat (n + 1)

def slice (s : Text) (start stop : Nat) : Text := (s.take stop).drop start

theorem slice_append (before part after : Text) :
    slice (before ++ (part ++ after)) before.length (before.length + part.length) = part := by
  rw [slice, ← List.append_assoc, ← List.length_append, List.take_left, List.drop_left]

def find? (part : Text) : Text → Option Nat
  | [] => if part.isEmpty then some 0 else none
  | c :: s => if startsWith (c :: s) part then some 0 else (find? part s).map (· + 1)

def cut? (separator : Text) (s : Text) : Option (Text × Text) :=
  (find? separator s).map fun i => (s.take i, s.drop (i + separator.length))

def cutLast? (separator : Text) (s : Text) : Option (Text × Text) :=
  (cut? separator.reverse s.reverse).map fun (after, before) => (before.reverse, after.reverse)

def stripStart (blank : Char → Bool) (s : Text) : Text := s.dropWhile blank

def stripEnd (blank : Char → Bool) (s : Text) : Text := (s.reverse.dropWhile blank).reverse

def stripBy (blank : Char → Bool) (s : Text) : Text := stripEnd blank (stripStart blank s)

/-- The pieces between the characters that satisfy `cutsAt`; always at least one. -/
def pieces (cutsAt : Char → Bool) : Text → List Text
  | [] => [[]]
  | c :: s =>
    if cutsAt c then [] :: pieces cutsAt s
    else match pieces cutsAt s with
      | [] => [[c]]
      | piece :: rest => (c :: piece) :: rest

def repeated (n : Nat) (c : Char) : Text := List.replicate n c

end Text

end CommandShell
