import CommandShell.Command.Signature
import CommandShell.Display.Table
import CommandShell.Layout.Basic

/-!
The commands that make, change, list, remove and show controls.
-/

set_option autoImplicit false

namespace CommandShell.Layout

/-! ## Candidates -/

def boundType (r : PoolRequest) : Option Text :=
  match r.bound "ControlType".toList .null with
  | .member m => if m.type = controlType then some m.name else none
  | .text s => (controlType.all.find? fun m => Text.lower m.name = Text.lower s).map (·.name)
  | _ => none

def supplyFrom (entry : Control → Except Raised (Option PoolEntry)) :
    List PoolEntry → List Control → Supply
  | found, [] => .finite found .finished
  | found, c :: rest =>
    match entry c with
    | .ok e => supplyFrom entry (found ++ e.toList) rest
    | .error raised => .finite found (.failed raised)

def isOfType (wanted : Option Text) (c : Control) : Bool :=
  match wanted, c.type with
  | none, _ => true
  | some name, .member m => m.type = controlType && m.name = name
  | some _, _ => false

def nameProvider : Provider Layout := fun r layout =>
  supplyFrom (fun c =>
    if isOfType (boundType r) c then do
      let type ← typeText c.type
      let content ← c.content.shown
      pure (some (.item c.name none (some (type ++ ' ' :: content))))
    else pure none) [] (layout.map (·.2))

def parentProvider : Provider Layout := fun r layout =>
  let own := r.bound "Name".toList (.text [])
  match if own.isTruthy then own.print else .ok [] with
  | .error raised => .finite [] (.failed raised)
  | .ok own =>
    supplyFrom (fun c => do
      if ← isPanel c then
        let name ← lowered c.name
        if name = Text.lower own then pure none
        else
          let type ← typeText c.type
          pure (some (.item c.name none (some type)))
      else pure none) [] (layout.map (·.2))

def contentProvider : Provider Layout := fun _ layout =>
  .finite ((layout.map (·.2)).filterMap fun c =>
    if c.content.isTruthy then some (.plain c.content) else none) .finished

/-! ## Running -/

def outcome : Except Raised (Outcome × Layout) → Layout → Outcome × Layout
  | .ok result, _ => result
  | .error raised, layout => (.failed raised, layout)

def argument (r : Received) (name : String) : Datum := (r.own.get? name.toList).getD .null

/-- The variable that the type of a call comes from. A list comes from none: it is made anew. -/
def typeSource? (r : Received) : Option Source :=
  match argument r "control_type" with
  | .list _ => none
  | _ => r.sources.get? "control_type".toList

def saying (parts : List Text) : Outcome := .result true parts.flatten

def refusing (parts : List Text) : Outcome := .result false ("[error] ".toList ++ parts.flatten)

def host (layout : Layout) (parent : Datum) : Except Raised (Datum ⊕ Outcome) :=
  match parent with
  | .null => .ok (.inl .null)
  | parent => do
    let c ← lookup layout parent
    if ← isPanel c then pure (.inl c.name)
    else
      let name ← c.name.print
      let type ← typeText c.type
      pure (.inr (refusing ["'".toList, name, "' is a ".toList, type, ", not a panel.".toList]))

def placeText (c : Control) : Except Raised Text :=
  if c.parent.isTruthy then do pure (" in '".toList ++ (← c.parent.print) ++ ['\'']) else pure []

def created (c : Control) : Except Raised Outcome := do
  let place ← placeText c
  let type ← typeText c.type
  let name ← c.name.print
  pure (saying ["Created ".toList, type, " '".toList, name, "'".toList, place, ['.']])

/-- Adds a control and says so. A control of which nothing can be said is added all the same. -/
def add (layout : Layout) (c : Control) : Outcome × Layout :=
  if isCollection c.name then (.failed (unhashable c.name), layout)
  else
    let layout := layout ++ [(c.name, c)]
    match created c with
    | .error raised => (.failed raised, layout)
    | .ok said => (said, layout)

def create (r : Received) (layout : Layout) : Outcome × Layout :=
  let name := argument r "name"
  outcome (do
    match ← find? layout name with
    | some _ =>
      let printed ← name.print
      pure (refusing ["A control named '".toList, printed, "' already exists.".toList], layout)
    | none =>
      match ← host layout (argument r "parent") with
      | .inr refusal => pure (refusal, layout)
      | .inl parent =>
        pure (add layout ⟨argument r "control_type", name, argument r "content", parent,
          argument r "width", argument r "height", r.further, typeSource? r⟩)) layout

def replace (layout : Layout) (name : Datum) (c : Control) : Layout :=
  layout.map fun (key, old) => if key.same name then (key, c) else (key, old)

def change (r : Received) (layout : Layout) : Outcome × Layout :=
  let content := argument r "content"
  outcome (do
    let c ← lookup layout (argument r "name")
    let given := match content with
      | .null => false
      | _ => true
    let changed := { c with
      content := if given then content else c.content
      attached := c.attached.update r.further }
    let what :=
      if !r.further.isEmpty then Text.join ", ".toList (r.further.map (·.1))
      else if given then "Content".toList else "nothing".toList
    let said := match c.name.print with
      | .ok name => saying ["Updated '".toList, name, "': ".toList, what, ['.']]
      | .error raised => .failed raised
    pure (said, replace layout c.name changed)) layout

/-- Equal values of which there is only one. -/
def isUnique : Datum → Bool
  | .null | .boolean _ | .member _ => true
  | .integer n => -5 ≤ n && n ≤ 256
  | _ => false

/-- A wanted type that is given has to be that of the control: the same value if there is only one,
else a value of the same variable that has not been assigned since. -/
def isWanted (wanted : Datum) (source : Option Source) (c : Control) : Bool :=
  match wanted with
  | .null => true
  | wanted =>
    if isUnique wanted then c.type.same wanted else source.isSome && c.typeSource = source

def nameBegins (wanted : Datum) (c : Control) : Except Raised Bool :=
  match wanted with
  | .null => .ok true
  | wanted => do
    let name ← lowered c.name
    let start ← lowered wanted
    pure (Text.startsWith name start)

def orDash (d : Datum) : Datum := if d.isTruthy then d else .text ['-']

def listRow (c : Control) : Except Raised (List Datum) := do
  let type ← typeText c.type
  let attached ← attachedText c
  pure [c.name, .text type, orDash c.parent, orDash c.content, orDash (.text attached)]

def listRows (name type : Datum) (source : Option Source) :
    List Control → Except Raised (List (List Datum))
  | [] => .ok []
  | c :: rest => do
    if isWanted type source c then
      if ← nameBegins name c then
        let row ← listRow c
        let rows ← listRows name type source rest
        return row :: rows
    listRows name type source rest

def noControls : Outcome := .value (.text "No controls.".toList)

def list (r : Received) (layout : Layout) : Outcome × Layout :=
  outcome (do
    match ← listRows (argument r "name") (argument r "control_type") (typeSource? r)
      (layout.map (·.2)) with
    | [] => pure (noControls, layout)
    | rows =>
      let headers := ["Name", "Type", "Parent", "Content", "Attached"].map (·.toList)
      let cells ← rows.mapM (·.mapM Datum.print)
      pure (.value (.text (Table.format (Table.narrow 40) (some headers) cells)), layout)) layout

def remove (r : Received) (layout : Layout) : Outcome × Layout :=
  outcome (do
    let c ← lookup layout (argument r "name")
    let names := nested layout layout.length [c.name]
    pure (saying ["Removed ".toList, Text.ofNat names.length, " control(s).".toList],
      erase layout names)) layout

def display (r : Received) (layout : Layout) : Outcome × Layout :=
  let root := argument r "root"
  outcome (do
    let roots ← if root.isTruthy then do pure [← lookup layout root]
      else pure (children layout .null)
    match roots with
    | [] => pure (noControls, layout)
    | roots =>
      let lines ← roots.mapM (tree layout maxRoom 0)
      pure (.value (.text (Text.join ['\n'] lines.flatten)), layout)) layout

/-! ## Declarations -/

def required (name : String) (type : ValueType) : DeclaredArgument :=
  ⟨name.toList, type, .placeOrName, none⟩

def optional (name : String) (type : ValueType) (fallback : Datum) : DeclaredArgument :=
  ⟨name.toList, type, .placeOrName, some fallback⟩

def nameOnly (name : String) (type : ValueType) : DeclaredArgument :=
  ⟨name.toList, type, .nameOnly, some .null⟩

def attachedMembers : DeclaredArgument := ⟨"attached".toList, .any, .names, none⟩

def origin : Text := "tabline.plugins.controls.entrypoint".toList

def entry (routine : String) (arguments : List DeclaredArgument)
    (body : Received → Layout → Outcome × Layout) (description example? : String)
    (completers : List (String × Provider Layout)) : Entry Layout where
  routine := ⟨⟨routine.toList, arguments⟩, body⟩
  name := none
  description := description.toList
  example? := example?.toList
  origin := origin
  category := none
  completers := completers.map fun (name, provider) => (name.toList, provider)
  aliases := []
  argumentAliases := []
  argumentHelp := []

def typeAlias : Entries Text (List Text) := [("ControlType".toList, ["Type".toList])]

def commands : List (Command Layout) :=
  [{ entry "new_control"
      [required "control_type" (.enumeration controlType), required "name" .text,
        optional "content" .text (.text []), nameOnly "parent" .text, nameOnly "width" .integer,
        nameOnly "height" .integer, attachedMembers] create
      "Create a control; attached members (-Grid.Row 1, -DockPanel.Dock Left) set its layout."
      "New-Control Button ok -Content OK -Parent root -Grid.Row 1"
      [("Parent", parentProvider), ("Content", contentProvider)] with
      argumentAliases := typeAlias
      argumentHelp := [("ControlType", "Kind of control"), ("Name", "Unique element name"),
        ("Content", "Text shown by the control"), ("Parent", "Panel that hosts the control")].map
          fun (name, help) => (name.toList, help.toList) },
    entry "set_control" [required "name" .text, nameOnly "content" .text, attachedMembers] change
      "Change the content or attached members of an existing control."
      "Set-Control ok -DockPanel.Dock Right -ToolTip.ToolTip 'Close the dialog'"
      [("Name", nameProvider), ("Content", contentProvider)],
    { entry "get_control"
      [optional "name" .text .null, nameOnly "control_type" (.enumeration controlType)] list
      "List controls, optionally only those of one type." "Get-Control -ControlType Button"
      [("Name", nameProvider)] with argumentAliases := typeAlias },
    entry "remove_control" [required "name" .text] remove
      "Remove a control and everything nested in it." "Remove-Control root"
      [("Name", nameProvider)],
    entry "show_layout" [optional "root" .text .null] display
      "Render the control tree with attached members." "Show-Layout root"
      [("Root", parentProvider)]].map (·.command)

end CommandShell.Layout
