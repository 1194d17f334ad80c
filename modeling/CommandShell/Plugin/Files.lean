import CommandShell.Plugin.Module

/-!
The modules that the files of a package make.
-/

set_option autoImplicit false

namespace CommandShell.Module

variable {σ : Type}

def packageFile : Text := "__init__".toList

/-- The name and kind of the module in a file, whose path is given from the package on; other files
make no module. -/
def placeOf? (package path : Text) : Option (List Text × ModuleKind) :=
  let parts := (Text.pieces (· == '/') path).filter fun part => !part.isEmpty && part ≠ ['.']
  let folder := Text.pieces (· == '.') package ++ parts.dropLast
  let file := parts.getLast?.getD []
  let name := file.take (file.length - fileEnd.length)
  if !Text.endsWith file fileEnd then none
  else if name = packageFile then some (folder, .package)
  else some (folder ++ [name], .file)

def plainFolder (name : List Text) : Module σ := ⟨name, .folder, none, none, [], []⟩

/-- The modules that files make; a later file replaces an earlier one in its place. -/
def written (modules : List (Module σ)) : List (Module σ) :=
  (Entries.ofList (modules.map fun m => ((m.name, m.kind), m))).map (·.2)

/-- The modules of a package, with the folders that have no module of their own. Packages come
first, as they are found before files of their names. -/
def installed (package : Text) (modules : List (Module σ)) : List (Module σ) :=
  let (packages, files) := (written modules).partition (·.kind = .package)
  let modules := packages ++ files
  let top := Text.pieces (· == '.') package
  let paths := top :: modules.flatMap fun m => (List.range m.name.length).map m.name.take
  let bare := paths.filter fun path => !path.isEmpty && !modules.any (·.name = path)
  modules ++ bare.eraseDups.map plainFolder

end CommandShell.Module
