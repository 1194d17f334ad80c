import CommandShell.Datum.ValueType

/-!
Owner types, whose members are attached to other things by name, and the registry of them.
-/

set_option autoImplicit false

namespace CommandShell

inductive MemberKind where
  | property
  | event
  deriving DecidableEq

namespace MemberKind

def label : MemberKind → Text
  | .property => "Property".toList
  | .event => "Event".toList

def all : List MemberKind := [.property, .event]

def enumeration : Enumeration :=
  ⟨"MemberKind".toList, [("PROPERTY".toList, .text "Property".toList),
    ("EVENT".toList, .text "Event".toList)]⟩

def ofMember? (m : Member) : Option MemberKind :=
  if m.type = enumeration then all.find? fun kind => .text kind.label = m.value else none

end MemberKind

/-- A member that can be attached: the type is that of its value, or of its handler. -/
structure Attachable where
  name : Text
  kind : MemberKind
  type : ValueType

structure OwnerType where
  name : Text
  space : Text
  members : List Attachable

namespace OwnerType

def fullName (owner : OwnerType) : Text :=
  if owner.space.isEmpty then owner.name else owner.space ++ '.' :: owner.name

/-- A property or an event that is given twice keeps its place and takes the later type. -/
def make (name space : Text) (properties events : List (Text × ValueType)) : OwnerType :=
  ⟨name, space,
    (Entries.ofList properties).map (fun (n, type) => ⟨n, .property, type⟩)
      ++ (Entries.ofList events).map (fun (n, type) => ⟨n, .event, type⟩)⟩

def named (owner : OwnerType) (name : Text) : List Attachable :=
  owner.members.filter fun m => Text.lower m.name = Text.lower name

end OwnerType

inductive OwnerFault where
  | typeTaken (fullName : Text)
  | shortTaken (short fullName : Text)
  deriving DecidableEq

def OwnerFault.fault : OwnerFault → Fault
  | .typeTaken fullName => ⟨.value, "Type '".toList ++ fullName ++ "' already registered.".toList⟩
  | .shortTaken short fullName =>
    ⟨.value, "Short name '".toList ++ short ++ "' for '".toList ++ fullName
      ++ "' collides with an existing name.".toList⟩

/-- Owner types by full name in lower case, and the full names that short names stand for. -/
structure TypeRegistry where
  types : Entries Text OwnerType
  shorts : Entries Text Text
  /-- short names as they were given -/
  spelled : Entries Text Text

namespace TypeRegistry

def empty : TypeRegistry := ⟨[], [], []⟩

def addShorts (registry : TypeRegistry) (owner : OwnerType) :
    List Text → TypeRegistry × Option OwnerFault
  | [] => (registry, none)
  | short :: rest =>
    let key := Text.lower owner.fullName
    let lowered := Text.lower short
    match registry.shorts.get? lowered with
    | some existing =>
      if existing = key then
        addShorts { registry with spelled := registry.spelled.set lowered short } owner rest
      else (registry, some (.shortTaken short owner.fullName))
    | none =>
      addShorts { registry with
        shorts := registry.shorts.set lowered key
        spelled := registry.spelled.set lowered short } owner rest

/-- A short name that is refused leaves what was already added. -/
def register (registry : TypeRegistry) (owner : OwnerType) (shorts : List Text) :
    TypeRegistry × Option OwnerFault :=
  let key := Text.lower owner.fullName
  if registry.types.has key then (registry, some (.typeTaken owner.fullName))
  else addShorts { registry with types := registry.types.set key owner } owner shorts

def all (registry : TypeRegistry) : List OwnerType := registry.types.map (·.2)

/-- The type of that full name; else the only type of that simple name; else the type of that
short name. -/
def resolve (registry : TypeRegistry) (name : Text) : Option OwnerType :=
  let key := Text.lower name
  match registry.types.get? key with
  | some owner => some owner
  | none =>
    match registry.all.filter fun owner => Text.lower owner.name = key with
    | [owner] => some owner
    | _ => (registry.shorts.get? key).bind registry.types.get?

def membersOf (registry : TypeRegistry) (name : Text) : List Attachable :=
  match registry.resolve name with
  | some owner => owner.members
  | none => []

def names (registry : TypeRegistry) : List Text :=
  let simple := registry.all.map (·.name)
  ((simple ++ registry.spelled.map (·.2)).foldl
      (fun found name => if found.contains name then found else found ++ [name]) []).mergeSort
    fun a b => Text.le (Text.lower a) (Text.lower b)

end TypeRegistry

end CommandShell
