import CommandShell.Datum.Enumeration
import CommandShell.Datum.Moment
import CommandShell.Entries
import CommandShell.Number.Decimal
import CommandShell.Number.Numeral
import CommandShell.Text.Quoted

/-!
Values: what arguments become, what variables hold and what settings are.
-/

set_option autoImplicit false

namespace CommandShell

/-- A value of a class that the shell does not know. It has no attribute that the shell looks for,
and it equals just the objects of the same identity. -/
structure Object where
  typeName : Text
  identity : Nat
  isTruthy : Bool
  print : Except Raised Text
  shown : Except Raised Text

inductive Datum where
  | null
  | boolean (b : Bool)
  | integer (n : Int)
  | number (x : Binary64)
  | text (s : Text)
  | member (m : Member)
  /-- the text of a handler, kept as typed -/
  | script (s : Text)
  | moment (m : Moment)
  | list (items : List Datum)
  | map (entries : List (Text × Datum))
  | object (o : Object)

namespace Datum

def typeName : Datum → Text
  | .null => "NoneType".toList
  | .boolean _ => "bool".toList
  | .integer _ => "int".toList
  | .number _ => "float".toList
  | .text _ => "str".toList
  | .member m => m.type.name
  | .script _ => "ScriptBlock".toList
  | .moment m => m.typeName
  | .list _ => "list".toList
  | .map _ => "dict".toList
  | .object o => o.typeName

/-- Zeros, empty texts and empty collections count as no. -/
def isTruthy : Datum → Bool
  | .null => false
  | .boolean b => b
  | .integer n => n != 0
  | .number x => !x.isZero
  | .text s => !s.isEmpty
  | .member _ => true
  | .script _ => true
  | .moment _ => true
  | .list items => !items.isEmpty
  | .map entries => !entries.isEmpty
  | .object o => o.isTruthy

def truthText (b : Bool) : Text := if b then "True".toList else "False".toList

/-- How deeply collections may lie in one another to be shown. -/
def maxRoom : Nat := 994

def tooDeep : Fault :=
  ⟨.recursion, "maximum recursion depth exceeded while getting the repr of an object".toList⟩

mutual

/-- A value as messages show it, texts in quotes; `room` is left for what lies in it. -/
def shownIn : Nat → Datum → Except Raised Text
  | 0, _ => .error tooDeep
  | _ + 1, .null => .ok "None".toList
  | _ + 1, .boolean b => .ok (truthText b)
  | _ + 1, .integer n => Numeral.write n
  | _ + 1, .number x => .ok x.text
  | _ + 1, .text s => .ok (Text.quoted s)
  | _ + 1, .member m => m.shown
  | _ + 1, .script s => .ok ("ScriptBlock(text=".toList ++ Text.quoted s ++ [')'])
  | _ + 1, .moment m => .ok m.shown
  | room + 1, .list items => do
    let shown ← shownAll room items
    pure ('[' :: Text.join ", ".toList shown ++ [']'])
  | room + 1, .map entries => do
    let shown ← shownEntries room entries
    pure ('\x7b' :: Text.join ", ".toList shown ++ ['\x7d'])
  | _ + 1, .object o => o.shown

def shownAll (room : Nat) : List Datum → Except Raised (List Text)
  | [] => .ok []
  | d :: ds => do
    let first ← shownIn room d
    let rest ← shownAll room ds
    pure (first :: rest)

def shownEntries (room : Nat) : List (Text × Datum) → Except Raised (List Text)
  | [] => .ok []
  | (key, d) :: entries => do
    let first ← shownIn room d
    let rest ← shownEntries room entries
    pure ((Text.quoted key ++ ": ".toList ++ first) :: rest)

end

def shown (d : Datum) : Except Raised Text := shownIn maxRoom d

def print : Datum → Except Raised Text
  | .text s => .ok s
  | .member m => .ok m.print
  | .script s => .ok ("\x7b ".toList ++ s ++ " \x7d".toList)
  | .moment m => .ok m.print
  | .object o => o.print
  | d => d.shown

mutual

def depth : Datum → Nat
  | .map entries => depthOf entries + 1
  | _ => 0

def depthOf : List (Text × Datum) → Nat
  | [] => 0
  | (_, d) :: rest => max (depth d) (depthOf rest)

end

/-- The same scalar or object; two collections are never the same. -/
def same : Datum → Datum → Bool
  | .null, .null => true
  | .boolean a, .boolean b => a == b
  | .integer a, .integer b => a == b
  | .number a, .number b => a == b
  | .text a, .text b => a == b
  | .member a, .member b => a == b
  | .script a, .script b => a == b
  | .moment a, .moment b => a == b
  | .object a, .object b => a.identity == b.identity
  | _, _ => false

end Datum

end CommandShell
