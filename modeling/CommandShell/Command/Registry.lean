import CommandShell.Command.Basic

/-!
The registry of commands and their other names.
-/

set_option autoImplicit false

namespace CommandShell

inductive RegistrationFault where
  | nameTaken (name : Text)
  | aliasTaken (other command : Text)
  deriving DecidableEq

def RegistrationFault.fault : RegistrationFault → Fault
  | .nameTaken name => ⟨.value, "Command '".toList ++ name ++ "' already registered.".toList⟩
  | .aliasTaken other command =>
    ⟨.value, "Alias '".toList ++ other ++ "' for '".toList ++ command
      ++ "' collides with an existing name.".toList⟩

/-- Commands by name, and what other names stand for; all keys are in lower case. -/
structure Registry (σ : Type) where
  commands : Entries Text (Command σ)
  aliases : Entries Text Text
  /-- other names as they were given -/
  spelled : Entries Text Text
  descriptions : Entries Text Text

namespace Registry

variable {σ : Type}

def empty : Registry σ := ⟨[], [], [], []⟩

def isTaken (r : Registry σ) (key : Text) : Bool := r.commands.has key || r.aliases.has key

def addAliases (r : Registry σ) (command : Text) :
    List Text → Registry σ × Option RegistrationFault
  | [] => (r, none)
  | other :: rest =>
    let key := Text.lower other
    if r.isTaken key then (r, some (.aliasTaken other command))
    else addAliases { r with
      aliases := r.aliases.set key (Text.lower command)
      spelled := r.spelled.set key other } command rest

theorem addAliases_commands (r : Registry σ) (command : Text) (others : List Text) :
    (r.addAliases command others).1.commands = r.commands := by
  induction others generalizing r with
  | nil => rfl
  | cons other rest ih =>
    simp only [addAliases]
    split
    · rfl
    · exact ih _

/-- A name that is refused leaves what was already added. -/
def register (r : Registry σ) (c : Command σ) : Registry σ × Option RegistrationFault :=
  let key := Text.lower c.name
  if r.isTaken key then (r, some (.nameTaken c.name))
  else addAliases { r with commands := r.commands.set key c } c.name c.aliases

def get? (r : Registry σ) (name : Text) : Option (Command σ) :=
  let key := Text.lower name
  match r.commands.get? key with
  | some c => some c
  | none => (r.aliases.get? key).bind r.commands.get?

theorem get?_register {r : Registry σ} {c : Command σ}
    (h : r.isTaken (Text.lower c.name) = false) : (r.register c).1.get? c.name = some c := by
  simp [register, h, get?, addAliases_commands]

def all (r : Registry σ) : List (Command σ) := r.commands.map (·.2)

def names (r : Registry σ) : List Text := r.all.map (·.name) ++ r.spelled.map (·.2)

def describe (r : Registry σ) (name : Text) : Except Raised (List Parameter) :=
  match r.get? name with
  | some c => .ok c.parameters
  | none => .error (.fault ⟨.metadata, Text.quoted name⟩)

def categories (r : Registry σ) : Entries Text (List (Command σ)) :=
  r.all.foldl (fun groups c =>
    Entries.set groups c.category ((Entries.get? groups c.category).getD [] ++ [c])) []

def setDescription (r : Registry σ) (category description : Text) : Registry σ :=
  { r with descriptions := r.descriptions.set category (Text.strip description) }

def description (r : Registry σ) (category : Text) : Text :=
  (r.descriptions.get? category).getD []

end Registry

end CommandShell
