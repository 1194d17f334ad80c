import CommandShell.Inspection
import CommandShell.Layout.Commands
import CommandShell.Plugin.Load

/-!
The plugins that come with the shell: commands on controls, and one on owner types.
-/

set_option autoImplicit false

namespace CommandShell.Plugin

def package : Text := "tabline.plugins".toList

def folder (name : String) (about : Option String) : Module Layout :=
  ⟨Text.pieces (· == '.') name.toList, .package, none, about.map fun s => .text s.toList, [], []⟩

def file (name : String) (commands : List (Command Layout)) : Module Layout :=
  ⟨Text.pieces (· == '.') name.toList, .file, none, none, commands, []⟩

def bundled : List (Module Layout) :=
  [folder "tabline" none, folder "tabline.plugins" none,
    folder "tabline.plugins.controls"
      (some "Build UI element trees with attached layout members (Grid.Row, DockPanel.Dock, ...)."),
    file "tabline.plugins.controls.entrypoint" Layout.commands,
    file "tabline.plugins.controls.owners" [],
    folder "tabline.plugins.members"
      (some "Inspect owner types and their attachable properties and events."),
    file "tabline.plugins.members.entrypoint" [Inspection.command Layout.types]]

def loaded : Loading Layout := (Loading.empty.load bundled package).1

end CommandShell.Plugin
