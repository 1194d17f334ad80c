import CommandShell.Pool.Basic
import CommandShell.Quoting
import CommandShell.Text.CaseFold

/-!
Ranking of candidate pools: filtered by what is typed, grouped by what is shown, sorted, and made
ready for insertion.
-/

set_option autoImplicit false

namespace CommandShell

inductive SortDirective where
  | alphabetical
  | ascendingFrequency
  | descendingFrequency
  deriving DecidableEq

inductive Category where
  | command
  | parameterName
  | parameterValue
  | attachedMember
  deriving DecidableEq

structure Candidate where
  insertion : Text
  display : Text
  category : Category
  tooltip : Text
  deriving DecidableEq

namespace Ranking

/-- Splits a sort sentinel off the end of a word. -/
def sentinel (word : Text) : Text × Option SortDirective :=
  if Text.endsWith word ['!', '<'] then (word.take (word.length - 2), some .ascendingFrequency)
  else if Text.endsWith word ['!', '>'] then
    (word.take (word.length - 2), some .descendingFrequency)
  else (word, none)

abbrev Shown := Text × PoolEntry

structure Group where
  display : Text
  first : PoolEntry
  count : Nat

def addTo (groups : List Group) (entry : Shown) : List Group :=
  match groups with
  | [] => [⟨entry.1, entry.2, 1⟩]
  | g :: rest =>
    if g.display = entry.1 then { g with count := g.count + 1 } :: rest
    else g :: addTo rest entry

def groups (typed : Text) (pool : List Shown) : List Group :=
  (pool.filter fun entry =>
    Text.startsWith (Text.caseFold entry.1) (Text.caseFold typed)).foldl addTo []

def alphabeticalLe (a b : Text) : Bool :=
  let foldedA := Text.caseFold a
  let foldedB := Text.caseFold b
  if foldedA = foldedB then Text.le a b else Text.le foldedA foldedB

def groupLe (directive : SortDirective) (a b : Group) : Bool :=
  match directive with
  | .alphabetical => alphabeticalLe a.display b.display
  | .ascendingFrequency =>
    if a.count = b.count then alphabeticalLe a.display b.display else a.count < b.count
  | .descendingFrequency =>
    if a.count = b.count then alphabeticalLe a.display b.display else b.count < a.count

/-- The groups in order, up to a limit that is looked at after each. -/
def ordered (pool : List Shown) (typed : Text) (directive : SortDirective) (limit : Option Int) :
    List Group :=
  let all := (groups typed pool).mergeSort (groupLe directive)
  match limit with
  | some limit => all.take (Pool.atMost limit)
  | none => all

/-- A tooltip says how often a text occurs when the order is by frequency. -/
def candidate (directive : SortDirective) (category : Category) (quotes : Bool) (g : Group) :
    Except Raised Candidate := do
  let insertion ← g.first.insertion
  let tooltip := match g.first.tooltip with
    | some (c :: rest) => c :: rest
    | _ => g.display
  pure {
    insertion := if quotes then Quoting.quoteIfNeeded insertion else insertion
    display := g.display
    category := category
    tooltip :=
      if directive = .alphabetical then tooltip
      else tooltip ++ " (".toList ++ Text.ofNat g.count ++ [')'] }

def shown (pool : List PoolEntry) : Except Raised (List Shown) :=
  pool.mapM fun entry => entry.display.map (·, entry)

/-- Every entry is printed, but only the candidates that are left get a text to insert. -/
def rank (pool : List PoolEntry) (word : Text) (directive : Option SortDirective)
    (category : Category) (quotes : Bool) (limit : Option Int) :
    Except Raised (List Candidate) := do
  let (typed, parsed) := sentinel word
  let directive := (directive.or parsed).getD .alphabetical
  (ordered (← shown pool) typed directive limit).mapM (candidate directive category quotes)

end Ranking

end CommandShell
