import CommandShell.Datum.Toml.Scalar

/-!
Dotted keys, lists and tables in braces, as TOML writes them.
-/

set_option autoImplicit false

namespace CommandShell.Toml

abbrev Key := List Text

abbrev Table := Entries Text Datum

/-! ## Keys -/

def isKeyChar (c : Char) : Bool := c.isAlphanum || c == '-' || c == '_'

def keyPart? (s : Text) : Option (Text × Text) :=
  match s.takeWhile isKeyChar with
  | [] => lineText? s
  | part => some (part, s.dropWhile isKeyChar)

def key : Nat → Reader Key
  | 0, _ => .error .malformed
  | fuel + 1, s =>
    match keyPart? s with
    | none => .error .malformed
    | some (part, rest) =>
      match skipBlanks rest with
      | '.' :: rest => do
        let (parts, rest) ← key fuel (skipBlanks rest)
        pure (part :: parts, rest)
      | rest => .ok ([part], rest)

def readKey (s : Text) : Except Failure (Key × Text) := key (s.length + 1) s

/-! ## Tables -/

/-- Changes the table of a key, making the tables on the way to it. With `intoLists`, a list on the
way stands for its last table. -/
def changeAt (intoLists : Bool) (change : Table → Except Failure Table) :
    Key → Table → Except Failure Table
  | [], table => change table
  | part :: key, table =>
    match table.get? part with
    | none => do pure (table.set part (.map (← changeAt intoLists change key [])))
    | some (.map inner) => do pure (table.set part (.map (← changeAt intoLists change key inner)))
    | some (.list items) =>
      match intoLists, items.getLast? with
      | true, some (.map inner) => do
        let last ← changeAt intoLists change key inner
        pure (table.set part (.list (items.dropLast ++ [.map last])))
      | _, _ => .error .malformed
    | some _ => .error .malformed

def insert (name : Text) (d : Datum) (table : Table) : Except Failure Table :=
  if table.has name then .error .malformed else .ok (table.set name d)

def insertAt (intoLists : Bool) (key : Key) (d : Datum) : Table → Except Failure Table :=
  changeAt intoLists (insert (key.getLast?.getD []) d) key.dropLast

def isSealed (keys : List Key) (key : Key) : Bool := !key.isEmpty && keys.any (·.isPrefixOf key)

def isCollection : Datum → Bool
  | .list _ => true
  | .map _ => true
  | _ => false

/-! ## Values -/

/-- The room for values that lie in one another: a list takes two of it, a table in braces three. -/
def maxRoom : Nat := 988

def valueRoom : Nat := 2

def bracketRoom : Nat := 3

def keyRoom : Nat := 5

mutual

/-- A value; `fuel` bounds how many values it holds, and `room` how deeply they lie in it. -/
def value : Nat → Nat → Reader Datum
  | 0, _, _ => .error .malformed
  | fuel + 1, room, s =>
    if room < valueRoom then .error .tooDeep
    else match s with
    | '[' :: rest =>
      if room < bracketRoom then .error .tooDeep
      else do
        let rest ← skipFiller false rest
        let (items, rest) ← items fuel (room - 2) rest
        pure (.list items, rest)
    | '\x7b' :: rest =>
      if room < bracketRoom then .error .tooDeep
      else match skipBlanks rest with
        | '\x7d' :: rest => .ok (.map [], rest)
        | rest =>
          if room < keyRoom then .error .tooDeep
          else do
            let (table, rest) ← members fuel (room - 3) [] [] rest
            pure (.map table, rest)
    | '"' :: _ | '\'' :: _ =>
      match text? s with
      | some (t, rest) => .ok (.text t, rest)
      | none => .error .malformed
    | _ => plain s

def items : Nat → Nat → Reader (List Datum)
  | 0, _, _ => .error .malformed
  | _, _, ']' :: rest => .ok ([], rest)
  | fuel + 1, room, s => do
    let (first, rest) ← value fuel room s
    match ← skipFiller false rest with
    | ',' :: rest => do
      let rest ← skipFiller false rest
      let (others, rest) ← items fuel room rest
      pure (first :: others, rest)
    | ']' :: rest => pure ([first], rest)
    | _ => .error .malformed

/-- Members up to the closing brace; the collections among the earlier ones are sealed. -/
def members : Nat → Nat → List Key → Table → Reader Table
  | 0, _, _, _, _ => .error .malformed
  | fuel + 1, room, closed, table, s => do
    let (key, d, rest) ← pair fuel room s
    if isSealed closed key then .error .malformed
    else
      let table ← insertAt false key d table
      match skipBlanks rest with
      | '\x7d' :: rest => pure (table, rest)
      | ',' :: rest =>
        members fuel room (if isCollection d then key :: closed else closed) table
          (skipBlanks rest)
      | _ => .error .malformed

def pair : Nat → Nat → Text → Except Failure (Key × Datum × Text)
  | 0, _, _ => .error .malformed
  | fuel + 1, room, s => do
    match ← readKey s with
    | (key, '=' :: rest) => do
      let (d, rest) ← value fuel room (skipBlanks rest)
      pure (key, d, rest)
    | _ => .error .malformed

end

def readPair (s : Text) : Except Failure (Key × Datum × Text) := pair (3 * s.length + 3) maxRoom s

end CommandShell.Toml
