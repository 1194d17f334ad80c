import CommandShell.Argument
import CommandShell.Command.Parameter
import CommandShell.Owner.Merge

/-!
Binding of the elements of an invocation to declared parameters: names first, in one pass over the
elements, then places.
-/

set_option autoImplicit false

namespace CommandShell

inductive InUse where
  | name (name : Text)
  /-- a value that no parameter took, by its place among those -/
  | leftover (index : Nat)
  deriving DecidableEq

structure Binding where
  named : Entries Text Argument
  /-- names that mean no parameter, or more than one -/
  unknown : Entries Text Argument
  /-- values that no parameter took -/
  positional : List Argument
  errors : List Diagnostic
  inUse : Option InUse
  /-- the cursor is on a name and not on its value -/
  onName : Bool
  /-- merged attached members, under their keys in `named` -/
  attached : Entries Text AttachedMatch
  /-- parameters still unbound, in order of declaration -/
  available : List Parameter
  cursorElement : Option Element

namespace Binding

/-- What the user has supplied so far, for those who offer candidates: known names win over
unknown ones, and values without a name come under numbered keys. -/
def supplied (b : Binding) : Entries Text Argument :=
  let keyed := b.positional.zipIdx.map fun (value, index) =>
    ("$pos".toList ++ Text.ofNat index, value)
  Entries.update (Entries.update (Entries.ofList b.unknown) b.named) keyed

/-- Variable references stay references; the automatic variables have their values at once. -/
def valueOf (e : Element) : Argument :=
  match e.parts with
  | [t] =>
    if t.kind = .reference then
      match Argument.automatic? t.value with
      | some d => .known d
      | none => .deferred t.value none
    else .known (.text t.value)
  | [] => .known (.text [])
  | parts => .known (.list (parts.map fun t => .text t.value))

def inlineValue (inline : Text) : Argument :=
  match inline with
  | '$' :: name =>
    match Argument.automatic? name with
    | some d => .known d
    | none => .known (.text inline)
  | _ => .known (.text inline)

/-- The value of a parameter, and how many elements after it that takes. A switch takes none; a
parameter with nothing to take counts as a switch. -/
def valueAfter (parameter : Element) (following : Option Element) (isSwitch : Bool) :
    Argument × Nat :=
  match parameter.inline with
  | some inline => (inlineValue inline, 0)
  | none =>
    match isSwitch, following with
    | false, some e => if e.isParameter then (.known (.boolean true), 0) else (valueOf e, 1)
    | _, _ => (.known (.boolean true), 0)

/-- Where the cursor was found: at a parameter of a key, or at a value without a name. -/
structure Anchor where
  index : Nat
  onName : Bool
  key : Option Text

structure Pass where
  available : Entries Text Parameter
  named : Entries Text Argument
  unknown : Entries Text Argument
  attached : Entries Text AttachedMatch
  errors : List Diagnostic
  /-- values without a name, with the places of their elements -/
  values : List (Nat × Argument)
  anchor : Option Anchor

def Pass.start (declared : List Parameter) : Pass :=
  ⟨Entries.ofList (declared.map fun p => (Text.lower p.name, p)), [], [], [], [], [], none⟩

structure Context where
  declared : List Parameter
  types : Option TypeRegistry
  cursor : Option Nat

def Pass.takeValue (context : Context) (index : Nat) (e : Element) (pass : Pass) : Pass :=
  { pass with
    values := pass.values ++ [(index, valueOf e)]
    anchor := if context.cursor = some index then some ⟨index, false, none⟩ else pass.anchor }

/-- The cursor counts as on the name up to the element `index + nameSpan`. -/
def Pass.anchorAt (context : Context) (index nameSpan consumed : Nat) (key : Text) (pass : Pass) :
    Pass :=
  match context.cursor with
  | some cursor =>
    if index ≤ cursor && cursor ≤ index + consumed then
      { pass with anchor := some ⟨index, cursor ≤ index + nameSpan, some key⟩ }
    else pass
  | none => pass

/-- Why a typed name means nothing. A lone dash is still being typed and is no mistake. -/
def misnamed (context : Context) (pass : Pass) (typed : Text) (found : List Parameter)
    (offset : Nat) : List Diagnostic :=
  if !found.isEmpty then [⟨.ambiguousParameter typed (found.map (·.name)), some offset⟩]
  else if typed.isEmpty then []
  else
    let taken := context.declared.filter fun p => !pass.available.has (Text.lower p.name)
    if (Parameter.matching typed taken).isEmpty then [⟨.unknownParameter typed, some offset⟩]
    else [⟨.duplicateParameter typed, some offset⟩]

def Pass.takeParameter (context : Context) (index : Nat) (e : Element) (rest : List Element)
    (pass : Pass) : Pass × Nat :=
  let typed := e.text
  let found :=
    if typed.isEmpty then [] else Parameter.matching typed (pass.available.map (·.2))
  match found with
  | [p] =>
    let (value, consumed) := valueAfter e rest.head? p.isSwitch
    let pass := { pass with
      available := pass.available.erase (Text.lower p.name)
      named := pass.named.set p.name value }
    (pass.anchorAt context index 0 consumed p.name, consumed)
  | _ =>
    let (merged, noted) :=
      if found.isEmpty then Owner.merge context.types e rest.head? rest[1]? else (none, [])
    let pass := { pass with errors := pass.errors ++ noted }
    match merged with
    | some m =>
      let value := if m.raw.isSome then Argument.known m.value else .known (.boolean true)
      let consumed := if m.consumed then 2 else 1
      let pass := { pass with
        named := pass.named.set m.name value
        attached := pass.attached.set m.name m }
      (pass.anchorAt context index 1 consumed m.name, consumed)
    | none =>
      let (value, consumed) := valueAfter e rest.head? false
      let pass := { pass with
        errors := pass.errors ++ misnamed context pass typed found e.start
        unknown := pass.unknown.set typed value }
      (pass.anchorAt context index 0 consumed typed, consumed)

/-- The pass over the elements from `index` on; the first `skip` of them are already consumed. -/
def Pass.run (context : Context) (index : Nat) : Nat → List Element → Pass → Pass
  | _, [], pass => pass
  | skip + 1, _ :: rest, pass => run context (index + 1) skip rest pass
  | 0, e :: rest, pass =>
    if e.isParameter then
      let (pass, consumed) := pass.takeParameter context index e rest
      run context (index + 1) consumed rest pass
    else run context (index + 1) 0 rest (pass.takeValue context index e)

def byPlace (available : List Parameter) : List Parameter :=
  ((available.filterMap fun p => p.position.map (·, p)).mergeSort
    fun a b => a.1 ≤ b.1).map (·.2)

def Anchor.inUse? (bound : List (Nat × Text)) (left : List Nat) (anchor : Anchor) :
    Option InUse :=
  match anchor.key with
  | some key => some (.name key)
  | none =>
    match bound.find? (·.1 = anchor.index) with
    | some (_, name) => some (.name name)
    | none => (left.findIdx? (· = anchor.index)).map .leftover

def Pass.finish (cursorElement : Option Element) (pass : Pass) : Binding :=
  let pairs := (byPlace (pass.available.map (·.2))).zip pass.values
  let left := pass.values.drop pairs.length
  let bound := pairs.map fun (p, index, _) => (index, p.name)
  { named := pairs.foldl (fun named (p, _, value) => named.set p.name value) pass.named
    unknown := pass.unknown
    positional := left.map (·.2)
    errors := pass.errors
    inUse := pass.anchor.bind (Anchor.inUse? bound (left.map (·.1)))
    onName := (pass.anchor.map (·.onName)).getD false
    attached := pass.attached
    available :=
      (pairs.foldl (fun all (p, _) => all.erase (Text.lower p.name)) pass.available).map (·.2)
    cursorElement := cursorElement }

def bind (elements : List Element) (cursor : Int) (declared : List Parameter)
    (types : Option TypeRegistry) : Binding :=
  let index := Element.indexAt? elements cursor
  (Pass.run ⟨declared, types, index⟩ 1 0 (elements.drop 1) (Pass.start declared)).finish
    (index.bind (elements[·]?))

def outcome (b : Binding) : Except Raised Binding := Diagnostic.outcome b.errors b

/-- Binds an invocation to what a source of metadata declares for its command. Without metadata
nothing is declared, and that is noted first. -/
def bindInvocation (elements : List Element) (cursor : Int)
    (describe : Option (Text → Except Raised (List Parameter))) (types : Option TypeRegistry) :
    Binding :=
  match elements.head? with
  | none => bind elements cursor [] types
  | some command =>
    let (declared, noted) : List Parameter × List Diagnostic :=
      match describe with
      | none => ([], [⟨.noMetadata command.text, some command.start⟩])
      | some describe =>
        match describe command.text with
        | .ok declared => (declared, [])
        | .error raised =>
          ([], [⟨.tell (.undescribed command.text) raised, some command.start⟩])
    let result := bind elements cursor declared types
    { result with errors := noted ++ result.errors }

end Binding

end CommandShell
