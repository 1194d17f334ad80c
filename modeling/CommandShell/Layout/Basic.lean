import CommandShell.Argument
import CommandShell.Fault
import CommandShell.Layout.Owners
import CommandShell.Text.Lowercase

/-!
Controls nested in panels. A control knows the name of the panel that holds it.
-/

set_option autoImplicit false

namespace CommandShell

/-- A control. Its fields hold whatever the arguments of the command that made it came to. -/
structure Control where
  type : Datum
  name : Datum
  content : Datum
  /-- the name of the panel that holds it, or nothing -/
  parent : Datum
  width : Datum
  height : Datum
  attached : Entries Text Datum
  /-- the variable that its type comes from, if any -/
  typeSource : Option Source

abbrev Layout := List (Datum × Control)

namespace Layout

def controlType : Enumeration :=
  enumeration "ControlType" ["Button", "TextBox", "Label", "CheckBox", "ListBox", "Border",
    "StackPanel", "Grid", "DockPanel", "Canvas"]

def panelTypes : List Text :=
  ["Border", "StackPanel", "Grid", "DockPanel", "Canvas"].map (·.toList)

def noAttribute (d : Datum) (name : String) : Fault :=
  ⟨.attribute, '\'' :: d.typeName ++ "' object has no attribute '".toList ++ name.toList ++ ['\'']⟩

def lowered : Datum → Except Raised Text
  | .text s => .ok (Text.lower s)
  | d => .error (noAttribute d "lower")

def typeText : Datum → Except Raised Text
  | .member m => m.value.print
  | d => .error (noAttribute d "value")

def unhashable (d : Datum) : Fault :=
  ⟨.type, "unhashable type: '".toList ++ d.typeName ++ ['\'']⟩

def isCollection : Datum → Bool
  | .list _ => true
  | .map _ => true
  | _ => false

def isPanel (c : Control) : Except Raised Bool :=
  match c.type with
  | .member m => .ok (m.type = controlType && panelTypes.contains m.name)
  | d => if isCollection d then .error (unhashable d) else .ok false

def find? (layout : Layout) (name : Datum) : Except Raised (Option Control) :=
  match layout with
  | [] => .ok none
  | (key, c) :: rest => do
    let a ← lowered key
    let b ← lowered name
    if a = b then pure (some c) else find? rest name

def lookup (layout : Layout) (name : Datum) : Except Raised Control := do
  match ← find? layout name with
  | some c => pure c
  | none =>
    let printed ← name.print
    throw (.fault (Fault.ofKey ("No control named '".toList ++ printed ++ ['\''])))

/-- The panel that holds a control; an empty name counts as none. -/
def holder (c : Control) : Datum := if c.parent.isTruthy then c.parent else .null

def children (layout : Layout) (parent : Datum) : List Control :=
  (layout.map (·.2)).filter fun c => (holder c).same parent

/-- The names of controls and of everything nested in them, nearest first; `fuel` bounds their
number. -/
def nested (layout : Layout) : Nat → List Datum → List Datum
  | 0, _ => []
  | _, [] => []
  | fuel + 1, name :: queue =>
    name :: nested layout fuel (queue ++ (children layout name).map (·.name))

def erase (layout : Layout) (names : List Datum) : Layout :=
  layout.filter fun (key, _) => !names.any key.same

def valueText : Datum → Except Raised Text
  | .member m => .ok m.name
  | d => d.print

def attachedText (c : Control) : Except Raised Text := do
  let members ← c.attached.mapM fun (key, d) => do pure (key ++ '=' :: (← valueText d))
  pure (Text.join [' '] members)

def contentText (c : Control) : Except Raised Text :=
  if c.content.isTruthy then do pure (" \"".toList ++ (← c.content.print) ++ ['"']) else pure []

def label (c : Control) (depth : Nat) : Except Raised Text := do
  let type ← typeText c.type
  let name ← c.name.print
  let content ← contentText c
  let attached ← attachedText c
  pure (Text.repeated (2 * depth) ' ' ++ type ++ " '".toList ++ name ++ ['\'']
    ++ content ++ if attached.isEmpty then [] else "  [".toList ++ attached ++ [']'])

/-- How many calls may lie in one another below the one that shows a layout. -/
def maxRoom : Nat := 992

/-- How much room the line of a control takes; writing out its members takes most. -/
def lineRoom (c : Control) : Nat := if c.attached.isEmpty then 3 else 6

def tooDeep (c : Control) : Fault :=
  ⟨.recursion, "maximum recursion depth exceeded".toList
    ++ if c.attached.isEmpty then [] else " while calling a Python object".toList⟩

/-- The lines of a control and of everything nested in it, as far as there is room for one in the
other. A control that is nested in itself has no end. -/
def tree (layout : Layout) : Nat → Nat → Control → Except Raised (List Text)
  | 0, _, c => .error (tooDeep c)
  | room + 1, depth, c => do
    if room < lineRoom c then throw (.fault (tooDeep c))
    let first ← label c depth
    let rest ← (children layout c.name).mapM (tree layout room (depth + 1))
    pure (first :: rest.flatten)

end Layout

end CommandShell
