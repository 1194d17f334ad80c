import CommandShell.Datum.Basic
import CommandShell.Number.Reading
import CommandShell.Text.Lowercase

/-!
The declared types of parameters and members, and the conversion of typed text to them.
-/

set_option autoImplicit false

namespace CommandShell

/-- A class or function of somebody else that makes a value of a typed text. -/
structure Foreign where
  name : Text
  identity : Nat
  convert : Text → Except Raised Datum

inductive ValueType where
  | text
  | integer
  | number
  | boolean
  | any
  /-- whole number or text, kept as typed -/
  | mixed
  /-- whole number, text or nothing; no text converts to it -/
  | mixedOptional
  | script
  | enumeration (e : Enumeration)
  | foreign (f : Foreign)

inductive CoercionFault where
  | notInteger (raw : Text)
  | integerTooLong (digits : Nat)
  | notNumber (raw : Text)
  | notBoolean (raw : Text)
  | notMember (raw : Text) (type : Enumeration)
  | refused
  deriving DecidableEq

def tooManyDigits (digits : Nat) : Text :=
  "Exceeds the limit (4300 digits) for integer string conversion: value has ".toList
    ++ Text.ofNat digits
    ++ " digits; use sys.set_int_max_str_digits() to increase the limit".toList

namespace CoercionFault

def maxShown : Nat := 200

def message : CoercionFault → Text
  | .notInteger raw =>
    "invalid literal for int() with base 10: ".toList ++ (Text.quoted raw).take maxShown
  | .integerTooLong digits => tooManyDigits digits
  | .notNumber raw => "could not convert string to float: ".toList ++ Text.quoted raw
  | .notBoolean raw => "Expected boolean, got: ".toList ++ Text.quoted raw
  | .notMember raw type => Text.quoted raw ++ " is not a valid ".toList ++ type.name
  | .refused => "Cannot instantiate typing.Union".toList

def fault : CoercionFault → Fault
  | .refused => ⟨.type, message .refused⟩
  | f => ⟨.value, f.message⟩

end CoercionFault

def truth? (word : Text) : Option Bool :=
  if ["1", "true", "yes", "y", "on"].any (·.toList = word) then some true
  else if ["0", "false", "no", "n", "off"].any (·.toList = word) then some false
  else none

namespace Enumeration

/-- The first member whose value is a text in any case; values are printed up to that one. -/
def ofValue? (lowered : Text) : List Member → Except Raised (Option Member)
  | [] => .ok none
  | m :: rest => do
    if Text.lower (← m.value.print) = lowered then pure (some m) else ofValue? lowered rest

def coerce (e : Enumeration) (raw : Text) : Except Raised Member :=
  match e.all.find? (Text.lower ·.name = Text.lower raw) with
  | some m => .ok m
  | none => do
    match ← ofValue? (Text.lower raw) e.all with
    | some m => pure m
    | none => .error (CoercionFault.notMember raw e).fault

end Enumeration

namespace ValueType

def name : ValueType → Text
  | .text => "str".toList
  | .integer => "int".toList
  | .number => "float".toList
  | .boolean => "bool".toList
  | .any => "Any".toList
  | .mixed => "int | str".toList
  | .mixedOptional => "Union".toList
  | .script => "ScriptBlock".toList
  | .enumeration e => e.name
  | .foreign f => f.name

/-- The same type; foreign ones are told apart by their identity. -/
def same : ValueType → ValueType → Bool
  | .text, .text => true
  | .integer, .integer => true
  | .number, .number => true
  | .boolean, .boolean => true
  | .any, .any => true
  | .mixed, .mixed => true
  | .mixedOptional, .mixedOptional => true
  | .script, .script => true
  | .enumeration e, .enumeration e' => e == e'
  | .foreign f, .foreign f' => f.identity == f'.identity
  | _, _ => false

instance : BEq ValueType := ⟨same⟩

instance (type : ValueType) : Decidable (type = .boolean) :=
  match type with
  | .boolean => isTrue rfl
  | .text | .integer | .number | .any | .mixed | .mixedOptional | .script | .enumeration _
  | .foreign _ => isFalse nofun

/-- The value that a text stands for. A dollar sign before a word for yes or no is ignored. -/
def coerceText (type : ValueType) (raw : Text) : Except Raised Datum :=
  let refused (f : CoercionFault) : Except Raised Datum := .error f.fault
  match type with
  | .text | .any | .mixed => .ok (.text raw)
  | .integer =>
    match Numeral.read raw with
    | .ok n => .ok (.integer n)
    | .error .unreadable => refused (.notInteger raw)
    | .error (.tooLong digits) => refused (.integerTooLong digits)
  | .number =>
    match Binary64.read? raw with
    | some x => .ok (.number x)
    | none => refused (.notNumber raw)
  | .boolean =>
    match truth? ((Text.lower (Text.strip raw)).dropWhile (· == '$')) with
    | some b => .ok (.boolean b)
    | none => refused (.notBoolean raw)
  | .mixedOptional => refused .refused
  | .script => .ok (.script raw)
  | .enumeration e => (e.coerce raw).map .member
  | .foreign f => f.convert raw

mutual

/-- Lists are converted item by item; what is no text stays as it is. -/
def coerce (type : ValueType) : Datum → Except Raised Datum
  | .text raw => type.coerceText raw
  | .list items => (coerceAll type items).map .list
  | d => .ok d

def coerceAll (type : ValueType) : List Datum → Except Raised (List Datum)
  | [] => .ok []
  | d :: ds => do
    let first ← coerce type d
    let rest ← coerceAll type ds
    pure (first :: rest)

end

/-- The values that a type implies, and whether they are quoted when inserted. -/
def domain : ValueType → List Datum × Bool
  | .enumeration e => (e.all.map .member, true)
  | .boolean => (["$true", "$false"].map fun word => .text word.toList, false)
  | _ => ([], true)

end ValueType

end CommandShell
