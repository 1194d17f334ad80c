import CommandShell.Datum.Basic
import CommandShell.Number.Numeral

/-!
Values in JSON notation, with the names of the numbers that have no digits.
-/

set_option autoImplicit false

namespace CommandShell.Json

inductive Failure where
  | malformed
  | tooLong (digits : Nat)
  /-- a list, or else a map, lies too deep in others -/
  | tooDeep (isList : Bool)
  deriving DecidableEq

abbrev Reader (α : Type) := Text → Except Failure (α × Text)

def isBlank (c : Char) : Bool := c == ' ' || c == '\t' || c == '\n' || c == '\r'

def skipBlanks (s : Text) : Text := s.dropWhile isBlank

def hexValue? (c : Char) : Option Nat :=
  if c.isDigit then some (c.toNat - 48)
  else if 'a' ≤ c && c ≤ 'f' then some (c.toNat - 87)
  else if 'A' ≤ c && c ≤ 'F' then some (c.toNat - 55)
  else none

def unit : Text → Option (Nat × Text)
  | a :: b :: c :: d :: s => do
    let a ← hexValue? a
    let b ← hexValue? b
    let c ← hexValue? c
    let d ← hexValue? d
    pure (((a * 16 + b) * 16 + c) * 16 + d, s)
  | _ => none

def escapedUnit (s : Text) : Option (Char × Text) := do
  let (high, rest) ← unit s
  if 0xd800 ≤ high && high < 0xdc00 then
    match rest with
    | '\\' :: 'u' :: more =>
      let (low, after) ← unit more
      if 0xdc00 ≤ low && low < 0xe000 then
        pure (Char.ofNat (0x10000 + (high - 0xd800) * 0x400 + (low - 0xdc00)), after)
      else pure (Char.ofNat 0xfffd, rest)
    | _ => pure (Char.ofNat 0xfffd, rest)
  else if 0xdc00 ≤ high && high < 0xe000 then pure (Char.ofNat 0xfffd, rest)
  else pure (Char.ofNat high, rest)

def escape : Text → Option (Char × Text)
  | '"' :: s => some ('"', s)
  | '\\' :: s => some ('\\', s)
  | '/' :: s => some ('/', s)
  | 'b' :: s => some (Char.ofNat 8, s)
  | 'f' :: s => some (Char.ofNat 12, s)
  | 'n' :: s => some ('\n', s)
  | 'r' :: s => some ('\r', s)
  | 't' :: s => some ('\t', s)
  | 'u' :: s => escapedUnit s
  | _ => none

def textBody : Nat → Text → Option (Text × Text)
  | 0, _ => none
  | _, [] => none
  | fuel + 1, c :: s =>
    if c == '"' then some ([], s)
    else if c == '\\' then do
      let (d, rest) ← escape s
      let (value, rest) ← textBody fuel rest
      pure (d :: value, rest)
    else if c.val < 32 then none
    else do
      let (value, rest) ← textBody fuel s
      pure (c :: value, rest)

def quotedText : Reader Text
  | '"' :: s =>
    match textBody (s.length + 1) s with
    | some result => .ok result
    | none => .error .malformed
  | _ => .error .malformed

def digits (s : Text) : Text × Text := (s.takeWhile Char.isDigit, s.dropWhile Char.isDigit)

def digitsValue (s : Text) : Nat := Numeral.value (s.map fun c => c.toNat - 48)

def fraction (s : Text) : Text × Text :=
  match s with
  | '.' :: rest => if (digits rest).1.isEmpty then ([], s) else digits rest
  | _ => ([], s)

def exponent (s : Text) : Option Int × Text :=
  match s with
  | c :: rest =>
    if c == 'e' || c == 'E' then
      let (negative, body) := Numeral.sign rest
      if (digits body).1.isEmpty then (none, s)
      else (some (Numeral.signed negative (digitsValue (digits body).1)), (digits body).2)
    else (none, s)
  | [] => (none, [])

def number (s : Text) : Except Failure (Datum × Text) :=
  let (negative, body) := match s with
    | '-' :: rest => (true, rest)
    | _ => (false, s)
  let (whole, rest) := match body with
    | '0' :: rest => (['0'], rest)
    | _ => digits body
  if whole.isEmpty then .error .malformed
  else
    let (part, rest) := fraction rest
    let (power, rest) := exponent rest
    if part.isEmpty && power.isNone then
      if whole.length > Numeral.maxDigits then .error (.tooLong whole.length)
      else .ok (.integer (Numeral.signed negative (digitsValue whole)), rest)
    else
      let all := (whole ++ part).dropWhile (· == '0')
      .ok (.number (Binary64.ofDecimal negative (digitsValue all) all.length
        (power.getD 0 - part.length)), rest)

def named : List (Text × Datum) :=
  [("null".toList, .null), ("true".toList, .boolean true), ("false".toList, .boolean false),
    ("NaN".toList, .number .nan), ("Infinity".toList, .number (.infinite false)),
    ("-Infinity".toList, .number (.infinite true))]

def maxDepth : Nat := 989

mutual

/-- A value that begins at the first character; `fuel` bounds how many values it holds, and `room`
how deeply they lie in it. -/
def value : Nat → Nat → Reader Datum
  | 0, _, _ => .error .malformed
  | fuel + 1, room, s =>
    match s with
    | '"' :: _ => do
      let (t, rest) ← quotedText s
      pure (.text t, rest)
    | '[' :: rest =>
      if room = 0 then .error (.tooDeep true)
      else match skipBlanks rest with
        | ']' :: rest => .ok (.list [], rest)
        | rest => do
          let (items, rest) ← items fuel (room - 1) rest
          pure (.list items, rest)
    | '\x7b' :: rest =>
      if room = 0 then .error (.tooDeep false)
      else match skipBlanks rest with
        | '\x7d' :: rest => .ok (.map [], rest)
        | rest => do
          let (entries, rest) ← members fuel (room - 1) [] rest
          pure (.map entries, rest)
    | _ =>
      match named.find? (Text.startsWith s ·.1) with
      | some (name, d) => .ok (d, s.drop name.length)
      | none => number s

def items : Nat → Nat → Reader (List Datum)
  | 0, _, _ => .error .malformed
  | fuel + 1, room, s => do
    let (first, rest) ← value fuel room s
    match skipBlanks rest with
    | ',' :: rest => do
      let (others, rest) ← items fuel room (skipBlanks rest)
      pure (first :: others, rest)
    | ']' :: rest => pure ([first], rest)
    | _ => .error .malformed

/-- Members up to the closing brace; a repeated key keeps its place and takes the later value. -/
def members : Nat → Nat → List (Text × Datum) → Reader (List (Text × Datum))
  | 0, _, _, _ => .error .malformed
  | fuel + 1, room, earlier, s => do
    let (key, rest) ← quotedText s
    match skipBlanks rest with
    | ':' :: rest => do
      let (d, rest) ← value fuel room (skipBlanks rest)
      let entries := Entries.set earlier key d
      match skipBlanks rest with
      | ',' :: rest => members fuel room entries (skipBlanks rest)
      | '\x7d' :: rest => pure (entries, rest)
      | _ => .error .malformed
    | _ => .error .malformed

end

def read (s : Text) : Except Failure Datum :=
  match value (2 * s.length + 2) maxDepth (skipBlanks s) with
  | .ok (d, rest) => if (skipBlanks rest).isEmpty then .ok d else .error .malformed
  | .error failure => .error failure

end CommandShell.Json
