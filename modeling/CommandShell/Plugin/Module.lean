import CommandShell.Command.Registry

/-!
Modules that can be imported, and what importing them leaves behind.
-/

set_option autoImplicit false

namespace CommandShell

inductive ModuleKind where
  | file
  /-- a folder with a module of its own -/
  | package
  /-- a folder without one -/
  | folder
  deriving DecidableEq

structure Module (σ : Type) where
  name : List Text
  kind : ModuleKind
  doc : Option Text
  /-- what it says about its category -/
  categoryText : Option Datum
  /-- commands that are registered when it is imported -/
  registers : List (Command σ)
  /-- commands that it offers to whoever imports it -/
  offers : List (Command σ)

def Module.dotted (name : List Text) : Text := Text.join ['.'] name

def Module.fileEnd : Text := ".py".toList

def Module.lastName {σ : Type} (m : Module σ) : Text := m.name.getLast?.getD []

def Module.fileName {σ : Type} (m : Module σ) : Text :=
  m.lastName ++ if m.kind = .file then fileEnd else []

inductive LoadFault where
  | missing (name : Text)
  | notInPackage (name parent : Text)
  | noPackage (name : Text)
  | emptyName
  | relative (name : Text)
  | refused (fault : RegistrationFault)
  deriving DecidableEq

def LoadFault.fault : LoadFault → Fault
  | .missing name => ⟨.missingModule, "No module named ".toList ++ Text.quoted name⟩
  | .notInPackage name parent =>
    ⟨.missingModule, "No module named ".toList ++ Text.quoted name ++ "; ".toList
      ++ Text.quoted parent ++ " is not a package".toList⟩
  | .noPackage name =>
    ⟨.runtime, '\'' :: name ++ "' must be a package (folder) with modules.".toList⟩
  | .emptyName => ⟨.value, "Empty module name".toList⟩
  | .relative name =>
    ⟨.type, "the 'package' argument is required to perform a relative import for ".toList
      ++ Text.quoted name⟩
  | .refused fault => fault.fault

structure Loading (σ : Type) where
  registry : Registry σ
  imported : List (List Text)

namespace Loading

variable {σ : Type}

def empty : Loading σ := ⟨Registry.empty, []⟩

def registerAll (l : Loading σ) : List (Command σ) → Loading σ × Option LoadFault
  | [] => (l, none)
  | c :: rest =>
    match l.registry.register c with
    | (registry, none) => registerAll { l with registry := registry } rest
    | (registry, some fault) => ({ l with registry := registry }, some (.refused fault))

def find? (installed : List (Module σ)) (name : List Text) : Option (Module σ) :=
  installed.find? (·.name = name)

def importOne (installed : List (Module σ)) (l : Loading σ) (parent name : List Text) :
    Loading σ × Option LoadFault :=
  if l.imported.contains name then (l, none)
  else if !parent.isEmpty && (find? installed parent).any (·.kind = .file) then
    (l, some (.notInPackage (Module.dotted name) (Module.dotted parent)))
  else match find? installed name with
    | none => (l, some (.missing (Module.dotted name)))
    | some m =>
      match l.registerAll m.registers with
      | (l, none) => ({ l with imported := name :: l.imported }, none)
      | (l, some fault) => (l, some fault)

def importPath (installed : List (Module σ)) (l : Loading σ) (parent : List Text) :
    List Text → Loading σ × Option LoadFault
  | [] => (l, none)
  | part :: rest =>
    match importOne installed l parent (parent ++ [part]) with
    | (l, none) => importPath installed l (parent ++ [part]) rest
    | (l, some fault) => (l, some fault)

end Loading

end CommandShell
