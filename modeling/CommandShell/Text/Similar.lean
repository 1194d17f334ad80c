import CommandShell.Text.Basic

/-!
How similar two texts are: the characters in their longest common stretch, and in the longest
common stretches on either side of it, compared with their lengths.
-/

set_option autoImplicit false

namespace CommandShell.Text

abbrev Anchored := List (Char × Bool)

/-- In a text of two hundred characters or more, no stretch begins at a character that makes up
more than a hundredth of it. -/
def anchored (s : Text) : Anchored :=
  s.map fun c => (c, s.length < 200 || s.count c ≤ s.length / 100 + 1)

/-- A common stretch: where it begins in either text, and its length. -/
structure Stretch where
  left : Nat
  right : Nat
  length : Nat

/-- The lengths of the common stretches that end at a character of the left text and at each of
the right one; `previous` are those for the character before. -/
def stretchRow (c : Char) : Nat → List Nat → Anchored → List Nat
  | _, _, [] => []
  | before, previous, (d, usable) :: rest =>
    (if usable && c == d then before + 1 else 0) ::
      stretchRow c (previous.headD 0) (previous.drop 1) rest

def bestInRow (i : Nat) (best : Stretch) : Nat → List Nat → Stretch
  | _, [] => best
  | j, n :: rest =>
    bestInRow i (if n > best.length then ⟨i + 1 - n, j + 1 - n, n⟩ else best) (j + 1) rest

def longestFrom (right : Anchored) (i : Nat) (previous : List Nat) (best : Stretch) :
    Text → Stretch
  | [] => best
  | c :: rest =>
    let row := stretchRow c 0 previous right
    longestFrom right (i + 1) row (bestInRow i best 0 row) rest

def commonLength : Text → Text → Nat
  | a :: s, b :: t => if a = b then commonLength s t + 1 else 0
  | _, _ => 0

def longest (left : Text) (right : Anchored) : Stretch :=
  let best := longestFrom right 0 [] ⟨0, 0, 0⟩ left
  let letters := right.map (·.1)
  let back := commonLength (left.take best.left).reverse (letters.take best.right).reverse
  let forth := commonLength (left.drop (best.left + best.length))
    (letters.drop (best.right + best.length))
  ⟨best.left - back, best.right - back, best.length + back + forth⟩

/-- The characters in common stretches; `fuel` bounds how often the left text is divided. -/
def commonCount : Nat → Text → Anchored → Nat
  | 0, _, _ => 0
  | fuel + 1, left, right =>
    let best := longest left right
    if best.length = 0 then 0
    else best.length + commonCount fuel (left.take best.left) (right.take best.right)
      + commonCount fuel (left.drop (best.left + best.length))
          (right.drop (best.right + best.length))

/-- A candidate with the characters it has in common with a word, and the length of both. -/
structure Likeness where
  common : Nat
  total : Nat
  candidate : Text

def likeness (word candidate : Text) : Likeness :=
  ⟨commonCount (candidate.length + 1) candidate (anchored word),
    candidate.length + word.length, candidate⟩

def Likeness.isClose (l : Likeness) : Bool := l.total = 0 || 3 * l.total ≤ 10 * l.common

/-- The more alike first; among equals the later in the order of texts. -/
def Likeness.le (a b : Likeness) : Bool :=
  if a.common * b.total = b.common * a.total then Text.le b.candidate a.candidate
  else b.common * a.total ≤ a.common * b.total

def closest (word : Text) (candidates : List Text) : List Text :=
  ((((candidates.map (likeness word)).filter Likeness.isClose).mergeSort Likeness.le).take 3).map
    (·.candidate)

end CommandShell.Text
