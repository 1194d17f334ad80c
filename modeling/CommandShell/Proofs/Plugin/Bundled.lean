import CommandShell.Plugin.Bundled
import CommandShell.Session.Line

/-!
The shell with the plugins that come with it: what loading them registers.
-/

set_option autoImplicit false

namespace CommandShell.Plugin

open Loading

def controls : Module Layout :=
  folder "tabline.plugins.controls"
    (some "Build UI element trees with attached layout members (Grid.Row, DockPanel.Dock, ...).")

def members : Module Layout :=
  folder "tabline.plugins.members"
    (some "Inspect owner types and their attachable properties and events.")

theorem plugins_bundled :
    plugins bundled (Text.pieces (· == '.') package) = [controls, members] := by
  unfold plugins
  rw [List.mergeSort_of_pairwise]
  · rfl
  · decide +kernel

/-- A command as it is registered, in the category of its plugin. -/
def grouped (category : String) (c : Command Layout) : Text × Command Layout :=
  (Text.lower c.name, { c with category := category.toList })

def registry : Registry Layout where
  commands := Layout.commands.map (grouped "controls") ++
    [grouped "members" (Inspection.command Layout.types)]
  aliases := [("gtm".toList, "get-typemember".toList)]
  spelled := [("gtm".toList, "gtm".toList)]
  descriptions := [("controls".toList, categoryText controls),
    ("members".toList, categoryText members)]

theorem loaded_registry : loaded.registry = registry := by
  unfold loaded load
  dsimp only
  rw [plugins_bundled]
  rfl

def shell : Shell Layout := ⟨loaded.registry, Layout.types⟩

theorem shell_eq : shell = ⟨registry, Layout.types⟩ := by rw [shell, loaded_registry]

theorem mem_all_shell {c : Command Layout} (h : c ∈ shell.registry.all) :
    ∃ declared ∈ Layout.commands ++ [Inspection.command Layout.types],
      c.name = declared.name ∧ c.action = declared.action := by
  rw [shell_eq] at h
  obtain ⟨entry, hentry, rfl⟩ := List.mem_map.mp h
  rcases List.mem_append.mp hentry with hentry | hentry
  · obtain ⟨declared, hdeclared, rfl⟩ := List.mem_map.mp hentry
    exact ⟨declared, List.mem_append_left _ hdeclared, rfl, rfl⟩
  · obtain rfl := List.mem_singleton.mp hentry
    exact ⟨_, List.mem_append_right _ (List.mem_singleton_self _), rfl, rfl⟩

end CommandShell.Plugin
