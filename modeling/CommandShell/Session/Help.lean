import CommandShell.Command.Registry
import CommandShell.Display.Table
import CommandShell.Text.Similar

/-!
Help: the overview of categories, the commands of a category, and what a command takes.
-/

set_option autoImplicit false

namespace CommandShell.Help

variable {σ : Type}

def hint : Text := "Type 'help <command>' for more information on a specific command.".toList

def similar (r : Registry σ) (name : Text) : Text :=
  match Text.closest name (r.names ++ ["help".toList, "exit".toList, "quit".toList]) with
  | [] => []
  | found => " Did you mean: ".toList ++ Text.join ", ".toList found ++ ['?']

def orElse (s fallback : Text) : Text := if s.isEmpty then fallback else s

def dash : Text := ['-']

def headers (names : List String) : Option (List Text) := some (names.map (·.toList))

def sortedCategories (r : Registry σ) : Entries Text (List (Command σ)) :=
  r.categories.mergeSort fun a b => Text.le a.1 b.1

def overview (r : Registry σ) : Text :=
  match sortedCategories r with
  | [] => "No commands loaded.".toList
  | categories =>
    Table.format (Table.narrow 60) (headers ["Category", "Commands", "Description"])
      (categories.map fun (category, commands) =>
        [category,
          Text.ofNat commands.length ++ " command".toList
            ++ (if commands.length = 1 then [] else ['s']),
          r.description category])

def ofCategory (commands : List (Command σ)) : Text :=
  Table.format (Table.narrow 60) (headers ["Command", "Aliases", "Description"])
    ((commands.mergeSort fun a b => Text.le (Text.lower a.name) (Text.lower b.name)).map
      fun c =>
        [c.name, if c.aliases.isEmpty then dash else Text.join ", ".toList c.aliases,
          c.description])

def ofParameters (c : Command σ) : Text :=
  Table.format (Table.narrow 48)
    (headers ["Parameter", "Aliases", "Position", "Type", "Completer", "Description"])
    (c.parameters.map fun p =>
      ['-' :: p.name,
        orElse (Text.join ", ".toList p.aliases) dash,
        (p.position.map Text.ofInt).getD dash,
        if p.isSwitch then "switch".toList else p.type.name,
        if (c.completer? p.name).isSome then "yes".toList else dash,
        p.description])

def ofCommand (c : Command σ) : Text :=
  let aliases := if c.aliases.isEmpty then "(none)".toList else Text.join ", ".toList c.aliases
  Text.join ['\n']
    (["Name:        ".toList ++ c.name,
      "Aliases:     ".toList ++ aliases,
      "Category:    ".toList ++ c.category,
      "Description: ".toList ++ orElse c.description "(none)".toList,
      "Example:     ".toList ++ orElse c.example? "(none)".toList,
      "Usage:       ".toList ++ c.usage]
      ++ if c.parameters.isEmpty then [] else [ofParameters c])

/-- Help on a command; else on a category of exactly that name; else on all categories. -/
def on (r : Registry σ) (name : Text) : Text :=
  match r.get? name with
  | some c => ofCommand c
  | none =>
    match r.categories.get? name with
    | some commands => ofCategory commands
    | none =>
      if name = "all".toList then
        Text.join ['\n'] ((sortedCategories r).map fun (_, commands) => ofCategory commands)
      else "No such command or category: ".toList ++ name

end CommandShell.Help
