import CommandShell.Plugin.Module

/-!
Loading a package of plugins: its modules in order, then the categories of its commands.
-/

set_option autoImplicit false

namespace CommandShell.Loading

variable {σ : Type}

/-- A package hides a file of the same name. -/
def isHidden (installed : List (Module σ)) (m : Module σ) : Bool :=
  m.kind = .file && installed.any fun other => other.kind = .package && other.name = m.name

/-- Modules with an underscore in front are private, and a name with a point in it is out of
reach. -/
def isPlugin (installed : List (Module σ)) (m : Module σ) : Bool :=
  m.kind ≠ .folder && !isHidden installed m && m.lastName.head? ≠ some '_'
    && !m.lastName.contains '.'

def isInside (package : List Text) (m : Module σ) : Bool :=
  m.name.dropLast = package && m.name.length = package.length + 1

def plugins (installed : List (Module σ)) (package : List Text) : List (Module σ) :=
  (installed.filter fun m => isInside package m && isPlugin installed m).mergeSort
    fun a b => Text.le a.fileName b.fileName

def entrypoint : Text := "entrypoint".toList

/-- A package with a file of that name in it is loaded by its entry module. -/
def hasEntry (installed : List (Module σ)) (package : List Text) : Bool :=
  installed.any fun m => isInside package m && m.fileName = entrypoint ++ Module.fileEnd

/-- Loads one plugin: a file, a package by its entry module, or any other package. -/
def loadPlugin (installed : List (Module σ)) (l : Loading σ) (m : Module σ) :
    Loading σ × Option LoadFault :=
  if m.kind = .package && hasEntry installed m.name then
    let entry := m.name ++ [entrypoint]
    match importPath installed l [] entry with
    | (l, none) => l.registerAll (((find? installed entry).map (·.offers)).getD [])
    | failed => failed
  else importPath installed l [] m.name

def loadPlugins (installed : List (Module σ)) (l : Loading σ) :
    List (Module σ) → Loading σ × Option LoadFault
  | [] => (l, none)
  | m :: rest =>
    match loadPlugin installed l m with
    | (l, none) => loadPlugins installed l rest
    | failed => failed

/-- A command in the general category takes the package inside `package` that defines it. -/
def categorized (package : Text) (c : Command σ) : Command σ :=
  let start := package ++ ['.']
  if c.category = Command.general && Text.startsWith c.origin start then
    match Text.pieces (· == '.') (c.origin.drop start.length) with
    | category :: _ :: _ => { c with category := category }
    | _ => c
  else c

def assignCategories (package : Text) (l : Loading σ) : Loading σ :=
  { l with registry := { l.registry with
    commands := l.registry.commands.map fun (key, c) => (key, categorized package c) } }

def categoryText (m : Module σ) : Text :=
  match m.categoryText with
  | some (.text s) => s
  | _ => m.doc.getD []

def describe (installed : List (Module σ)) (l : Loading σ) (m : Module σ) : Loading σ :=
  if m.kind = .package then
    match importPath installed l [] m.name with
    | (l, none) =>
      { l with registry := l.registry.setDescription m.lastName (categoryText m) }
    | (l, some _) => l
  else l

/-- Loads the package of a dotted name; the result is the number of modules loaded. What was added
before a failure stays. -/
def load (installed : List (Module σ)) (l : Loading σ) (package : Text) :
    Loading σ × Except LoadFault Nat :=
  if package.isEmpty then (l, .error .emptyName)
  else if package.head? = some '.' then (l, .error (.relative package))
  else
    let name := Text.pieces (· == '.') package
    match importPath installed l [] name with
    | (l, some fault) => (l, .error fault)
    | (l, none) =>
      if (find? installed name).any (·.kind = .file) then (l, .error (.noPackage package))
      else
        let found := plugins installed name
        match loadPlugins installed l found with
        | (l, some fault) => (l, .error fault)
        | (l, none) =>
          (found.foldl (describe installed) (l.assignCategories package), .ok found.length)

end CommandShell.Loading
