import CommandShell.Datum.Toml.Value

/-!
TOML documents: statements that open tables and put values into them.
-/

set_option autoImplicit false

namespace CommandShell.Toml

/-- What has been read: the values, which tables were opened, which collections admit no more, and
the header that names the open table. -/
structure Document where
  table : Table
  /-- tables that no header may open again -/
  opened : List Key
  /-- tables that dotted keys have made since the last header -/
  made : List Key
  /-- lists and tables that were written as one value -/
  closed : List Key
  header : Key

namespace Document

def empty : Document := ⟨[], [], [], [], []⟩

/-- Tables made by dotted keys count as opened from the next header on. -/
def settle (d : Document) : Document := { d with opened := d.made ++ d.opened, made := [] }

def openTable (d : Document) (key : Key) : Except Failure Document := do
  let d := d.settle
  if d.opened.contains key || isSealed d.closed key then .error .malformed
  else
    let table ← changeAt true .ok key d.table
    pure { d with table := table, opened := key :: d.opened, header := key }

def append (name : Text) (table : Table) : Except Failure Table :=
  match table.get? name with
  | none => .ok (table.set name (.list [.map []]))
  | some (.list items) => .ok (table.set name (.list (items ++ [.map []])))
  | some _ => .error .malformed

/-- Opens a new table in the list of a header; what was said of the one before is void. -/
def openItem (d : Document) (key : Key) : Except Failure Document := do
  let d := d.settle
  if isSealed d.closed key then .error .malformed
  else
    let table ← changeAt true (append (key.getLast?.getD [])) key.dropLast d.table
    pure { d with
      table := table
      opened := key :: d.opened.filter fun k => !key.isPrefixOf k
      closed := d.closed.filter fun k => !key.isPrefixOf k
      header := key }

def passed (header key : Key) : List Key :=
  ((List.range key.length).drop 1).map fun n => header ++ key.take n

def put (d : Document) (key : Key) (value : Datum) : Except Failure Document := do
  let passed := passed d.header key
  if passed.any d.opened.contains || isSealed d.closed (d.header ++ key.dropLast) then
    .error .malformed
  else
    let table ← insertAt true (d.header ++ key) value d.table
    pure { d with
      table := table
      made := passed ++ d.made
      closed := if isCollection value then (d.header ++ key) :: d.closed else d.closed }

def startsKey (c : Char) : Bool := isKeyChar c || c == '"' || c == '\''

def statement (d : Document) (s : Text) : Except Failure (Document × Text) :=
  match s with
  | '[' :: '[' :: rest => do
    match ← readKey (skipBlanks rest) with
    | (key, ']' :: ']' :: rest) => do pure (← d.openItem key, rest)
    | _ => .error .malformed
  | '[' :: rest => do
    match ← readKey (skipBlanks rest) with
    | (key, ']' :: rest) => do pure (← d.openTable key, rest)
    | _ => .error .malformed
  | c :: _ =>
    if startsKey c then do
      let (key, value, rest) ← readPair s
      pure (← d.put key value, rest)
    else .ok (d, s)
  | [] => .ok (d, [])

def statements : Nat → Document → Text → Except Failure Document
  | 0, _, _ => .error .malformed
  | fuel + 1, d, s => do
    let (d, rest) ← d.statement (skipBlanks s)
    match ← skipComment (skipBlanks rest) with
    | [] => pure d
    | '\n' :: rest => statements fuel d rest
    | _ => .error .malformed

end Document

/-- Carriage returns before line feeds say nothing. -/
def unified : Text → Text
  | '\r' :: '\n' :: s => '\n' :: unified s
  | c :: s => c :: unified s
  | [] => []

def read (s : Text) : Except Failure Table := do
  let s := unified s
  pure (← Document.empty.statements (s.length + 1) s).table

end CommandShell.Toml
