import CommandShell.Diagnostic
import CommandShell.Element.Basic
import CommandShell.Owner.Basic

/-!
Attached members: a parameter and the word right after it, read together as `Owner.Member`.
-/

set_option autoImplicit false

namespace CommandShell

structure AttachedMatch where
  owner : OwnerType
  member : Attachable
  raw : Option Text
  /-- the value converted to the member's type, or the text where that fails -/
  value : Datum
  /-- the value is the element after the merged two -/
  consumed : Bool

def AttachedMatch.name (m : AttachedMatch) : Text := m.owner.name ++ '.' :: m.member.name

namespace Owner

def splitName? (s : Text) : Option (Text × Text) :=
  let parts :=
    if (Text.find? [':', ':'] s).isSome then Text.cutLast? [':', ':'] s
    else Text.cutLast? ['.'] s
  parts.filter fun (owner, _) => !owner.isEmpty

def suffixed (name : Text) : List (MemberKind × Text) :=
  MemberKind.all.filterMap fun kind =>
    if name.length > kind.label.length && Text.endsWith (Text.lower name) (Text.lower kind.label)
    then some (kind, name.take (name.length - kind.label.length)) else none

/-- The member of that name. A name declared with several kinds needs the kind at its end. -/
def findMember (owner : OwnerType) (name : Text) (offset : Option Nat) :
    Option Attachable × List Diagnostic :=
  match owner.named name with
  | [m] => (some m, [])
  | [] =>
    ((suffixed name).findSome? fun (kind, base) => (owner.named base).find? (·.kind = kind), [])
  | several =>
    (none, [⟨.ambiguousMember owner.name name
      ((several.map (·.kind.label)).mergeSort Text.le), offset⟩])

def isNameStart (c : Char) : Bool := c.isAlpha || c == '_'

def memberPart? : Text → Option (Text × Option Text)
  | [] => none
  | c :: s =>
    if isNameStart c then
      let name := c :: s.takeWhile Text.isWord
      match s.dropWhile Text.isWord with
      | [] => some (name, none)
      | ':' :: inline => some (name, some inline)
      | _ => none
    else none

/-- Owner, member and inline value. The owner reaches as far as it can: to a double colon after
it, else to its own last point. -/
def split? : Text → Option (Text × Text × Option Text)
  | [] => none
  | c :: s =>
    if isNameStart c then
      let run := c :: s.takeWhile fun d => Text.isWord d || d == '.'
      let rest := s.dropWhile fun d => Text.isWord d || d == '.'
      let doubled := match rest with
        | ':' :: ':' :: more => memberPart? more
        | _ => none
      match doubled with
      | some (member, inline) => some (run, member, inline)
      | none => do
        let (owner, tail) ← Text.cutLast? ['.'] run
        let (member, inline) ← memberPart? (tail ++ rest)
        pure (owner, member, inline)
    else none

def rawValue (inline : Option Text) (value : Option Element) : Option Text × Bool :=
  match inline with
  | some (c :: s) => (some (c :: s), false)
  | _ =>
    match value with
    | some e => if e.isParameter then (none, false) else (some e.text, true)
    | none => (none, false)

/-- Why a typed text stays a text. Only failures that say that it does not fit are caught. -/
def unconverted (owner : OwnerType) (member : Attachable) (raw : Text) (raised : Raised) :
    Diagnostic.Cause :=
  if raised.kind.isMisfit || raised.kind.isA .key then
    .tell (.coercionFailure raw owner.name member.name) raised
  else .escaped raised

def convert (owner : OwnerType) (member : Attachable) (raw : Option Text) (offset : Nat) :
    Datum × List Diagnostic :=
  match raw with
  | none => (.null, [])
  | some [] => (.text [], [])
  | some raw =>
    match member.type.coerceText raw with
    | .ok d => (d, [])
    | .error raised => (.text raw, [⟨unconverted owner member raw raised, some offset⟩])

/-- Merges a parameter with the element that touches it. Without a known owner and member the two
stay what they were. -/
def merge (types : Option TypeRegistry) (parameter : Element) (adjacent value : Option Element) :
    Option AttachedMatch × List Diagnostic :=
  match types, adjacent with
  | some types, some adjacent =>
    if adjacent.isParameter || adjacent.start != parameter.stop || parameter.inline.isSome then
      (none, [])
    else
      match split? (parameter.text ++ adjacent.raw) with
      | none => (none, [])
      | some (ownerName, memberName, inline) =>
        match types.resolve ownerName with
        | none => (none, [])
        | some owner =>
          match findMember owner memberName (some parameter.start) with
          | (none, found) => (none, found)
          | (some member, found) =>
            let (raw, consumed) := rawValue inline value
            let offset := match consumed, value with
              | true, some e => e.start
              | _, _ => parameter.start
            let (d, failed) := convert owner member raw offset
            (some ⟨owner, member, raw, d, consumed⟩, found ++ failed)
  | _, _ => (none, [])

end Owner

end CommandShell
