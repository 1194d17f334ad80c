import CommandShell.Command.Signature
import CommandShell.Display.Table
import CommandShell.Owner.Basic

/-!
The command that lists the members of owner types. Type and member names complete each other: with
one typed, only what fits it is offered for the other.
-/

set_option autoImplicit false

namespace CommandShell.Inspection

def boundText (r : PoolRequest) (name : String) : Text :=
  match r.bound name.toList .null with
  | .text s => Text.strip s
  | _ => []

def boundKind (r : PoolRequest) : Option MemberKind :=
  match r.bound "MemberType".toList .null with
  | .member m => MemberKind.ofMember? m
  | .text s => MemberKind.all.find? fun kind => Text.lower kind.label = Text.lower s
  | _ => none

def isOfKind (kind : Option MemberKind) (m : Attachable) : Bool :=
  match kind with
  | none => true
  | some kind => m.kind = kind

def begins (start : Text) (m : Attachable) : Bool := Text.startsWith (Text.lower m.name) start

def typeProvider {σ : Type} (types : TypeRegistry) : Provider σ := fun r _ =>
  let start := Text.lower (boundText r "MemberName")
  let owners := types.all.filter fun owner =>
    (owner.members.filter (isOfKind (boundKind r))).any (begins start)
  .finite (if r.cancelled then [] else owners.map fun owner =>
    .item (.text owner.name) none (some owner.fullName)) .finished

/-- The members of the supplied owner type, or of all of them: a name is offered once for each
type that has it. -/
def memberProvider {σ : Type} (types : TypeRegistry) : Provider σ := fun r _ =>
  let name := boundText r "TypeName"
  let owners := if name.isEmpty then types.all else (types.resolve name).toList
  .finite (owners.flatMap fun owner =>
    (owner.members.filter (isOfKind (boundKind r))).map fun m =>
      .item (.text m.name) none (some (m.kind.label ++ " of ".toList ++ owner.name))) .finished

def noAttribute (d : Datum) : Fault :=
  ⟨.attribute, '\'' :: d.typeName ++ "' object has no attribute 'lower'".toList⟩

def ownersOf (types : TypeRegistry) (name : Datum) : Except Fault (List OwnerType) :=
  if !name.isTruthy then .ok types.all
  else match name with
    | .text s =>
      match types.resolve s with
      | some owner => .ok [owner]
      | none => .error ⟨.value, "Unknown owner type '".toList ++ s ++ ['\'']⟩
    | d => .error (noAttribute d)

def isWantedKind (wanted : Datum) (m : Attachable) : Bool :=
  match wanted with
  | .null => true
  | .member member => MemberKind.ofMember? member = some m.kind
  | _ => false

def isWantedName (wanted : Datum) (m : Attachable) : Except Fault Bool :=
  if !wanted.isTruthy then .ok true
  else match wanted with
    | .text s => .ok (begins (Text.lower s) m)
    | d => .error (noAttribute d)

def row (owner : OwnerType) (m : Attachable) : List Text :=
  [owner.name, m.name, m.kind.label, m.type.name]

def rows (name kind : Datum) : List (OwnerType × Attachable) → Except Fault (List (List Text))
  | [] => .ok []
  | (owner, m) :: rest => do
    if isWantedKind kind m then
      if ← isWantedName name m then
        let others ← rows name kind rest
        return row owner m :: others
    rows name kind rest

def memberRows (types : TypeRegistry) (typeName memberName kind : Datum) :
    Except Fault (List (List Text)) := do
  let owners ← ownersOf types typeName
  rows memberName kind (owners.flatMap fun owner => owner.members.map fun m => (owner, m))

def answer : Except Fault (List (List Text)) → Outcome
  | .error fault => .failed fault
  | .ok [] => .value (.text "No matching members.".toList)
  | .ok rows =>
    .value (.text (Table.format Table.plain
      (some (["Type", "Member", "Kind", "Value type"].map (·.toList))) rows))

def command {σ : Type} (types : TypeRegistry) : Command σ :=
  let argument (r : Received) (name : String) : Datum := (r.own.get? name.toList).getD .null
  let pairs (entries : List (String × String)) : Entries Text Text :=
    entries.map fun (name, text) => (name.toList, text.toList)
  Entry.command {
    routine := {
      signature := {
        name := "get_type_member".toList
        arguments :=
          [⟨"type_name".toList, .text, .placeOrName, some .null⟩,
            ⟨"member_name".toList, .text, .placeOrName, some .null⟩,
            ⟨"member_type".toList, .enumeration MemberKind.enumeration, .nameOnly, some .null⟩] }
      body := fun r state =>
        (answer (memberRows types (argument r "type_name") (argument r "member_name")
          (argument r "member_type")), state) }
    name := none
    description := "List the attachable properties and events of owner types.".toList
    example? := "Get-TypeMember Grid -MemberName Row".toList
    origin := "tabline.plugins.members.entrypoint".toList
    category := none
    completers := [("TypeName".toList, typeProvider types), ("MemberName".toList,
      memberProvider types)]
    aliases := ["gtm".toList]
    argumentAliases := [("TypeName".toList, ["Type".toList]), ("MemberName".toList,
      ["Member".toList])]
    argumentHelp := pairs [("TypeName", "Owner type (simple, full or short name)"),
      ("MemberName", "Member name prefix"), ("MemberType", "Property or Event")] }

end CommandShell.Inspection
