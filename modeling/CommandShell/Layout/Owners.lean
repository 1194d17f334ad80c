import CommandShell.Owner.Basic

/-!
The owner types whose members can be attached to any control.
-/

set_option autoImplicit false

namespace CommandShell.Layout

def enumeration (name : String) (members : List String) : Enumeration :=
  ⟨name.toList, members.map fun m => (m.toList, .text m.toList)⟩

def dock : Enumeration := enumeration "Dock" ["Left", "Top", "Right", "Bottom"]

def visibility : Enumeration := enumeration "Visibility" ["Visible", "Hidden", "Collapsed"]

def owner (name : String) (properties events : List (String × ValueType)) : OwnerType :=
  OwnerType.make name.toList "System.Windows.Controls".toList
    (properties.map fun (n, type) => (n.toList, type))
    (events.map fun (n, type) => (n.toList, type))

/-- The owner types with their short names. `Error` is declared as a property and as an event. -/
def owners : List (OwnerType × List Text) :=
  [(owner "Grid" [("Row", .integer), ("Column", .integer), ("RowSpan", .integer),
      ("ColumnSpan", .integer), ("IsSharedSizeScope", .boolean)] [], []),
    (owner "DockPanel" [("Dock", .enumeration dock)] [], ["Dock".toList]),
    (owner "Canvas" [("Left", .number), ("Top", .number), ("Right", .number), ("Bottom", .number),
      ("ZIndex", .integer)] [], []),
    (owner "ToolTipService" [("ToolTip", .text), ("InitialShowDelay", .integer),
      ("ShowOnDisabled", .boolean), ("Visibility", .enumeration visibility)]
      [("ToolTipOpening", .script), ("ToolTipClosing", .script)], ["ToolTip".toList]),
    (owner "Validation" [("HasError", .boolean), ("Error", .text)] [("Error", .script)], [])]

def types : TypeRegistry :=
  owners.foldl (fun registry (owner, shorts) => (registry.register owner shorts).1)
    TypeRegistry.empty

end CommandShell.Layout
