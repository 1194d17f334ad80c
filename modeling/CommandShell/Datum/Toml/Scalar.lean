import CommandShell.Datum.Json

/-!
Texts, numbers and the gaps between them, as TOML writes them.
-/

set_option autoImplicit false

namespace CommandShell.Toml

inductive Failure where
  | malformed
  | tooLong (digits : Nat)
  /-- lists and tables lie too deep in one another -/
  | tooDeep
  deriving DecidableEq

abbrev Reader (α : Type) := Text → Except Failure (α × Text)

/-! ## Gaps -/

def isBlank (c : Char) : Bool := c == ' ' || c == '\t'

def skipBlanks (s : Text) : Text := s.dropWhile isBlank

/-- Control characters stand nowhere; a tab is none, and line ends are told apart where it
matters. -/
def isControl (c : Char) : Bool := (c.val < 32 && c != '\t') || c.val == 127

def skipComment (s : Text) : Except Failure Text :=
  match s with
  | '#' :: rest =>
    if (rest.takeWhile (· != '\n')).any isControl then .error .malformed
    else .ok (rest.dropWhile (· != '\n'))
  | _ => .ok s

def skipFiller (inComment : Bool) : Text → Except Failure Text
  | [] => .ok []
  | c :: s =>
    if c == '\n' then skipFiller false s
    else if inComment then if isControl c then .error .malformed else skipFiller true s
    else if isBlank c then skipFiller false s
    else if c == '#' then skipFiller true s
    else .ok (c :: s)

/-! ## Texts -/

def hexChar? (count : Nat) (s : Text) : Option (Char × Text) := do
  let digits ← (s.take count).mapM Json.hexValue?
  let n := digits.foldl (fun n d => 16 * n + d) 0
  if digits.length = count && n.isValidChar then some (Char.ofNat n, s.drop count) else none

def escape? : Text → Option (Char × Text)
  | 'b' :: s => some (Char.ofNat 8, s)
  | 't' :: s => some ('\t', s)
  | 'n' :: s => some ('\n', s)
  | 'f' :: s => some (Char.ofNat 12, s)
  | 'r' :: s => some ('\r', s)
  | '"' :: s => some ('"', s)
  | '\\' :: s => some ('\\', s)
  | 'u' :: s => hexChar? 4 s
  | 'U' :: s => hexChar? 8 s
  | _ => none

def afterFold? (s : Text) : Option Text :=
  match skipBlanks s with
  | '\n' :: rest => some (rest.dropWhile fun c => isBlank c || c == '\n')
  | _ => none

def basicBody (manyLines : Bool) : Nat → Text → Option (Text × Text)
  | 0, _ => none
  | _, [] => none
  | fuel + 1, c :: s =>
    let keep := (basicBody manyLines fuel s).map fun (value, rest) => (c :: value, rest)
    if c == '"' then
      if !manyLines then some ([], s)
      else if Text.startsWith s ['"', '"'] then some ([], s.drop 2)
      else keep
    else if c == '\\' then
      match if manyLines then afterFold? s else none with
      | some rest => basicBody manyLines fuel rest
      | none => do
        let (d, rest) ← escape? s
        let (value, rest) ← basicBody manyLines fuel rest
        pure (d :: value, rest)
    else if isControl c && !(manyLines && c == '\n') then none
    else keep

def literalBody (manyLines : Bool) : Text → Option (Text × Text)
  | [] => none
  | c :: s =>
    if c == '\'' && (!manyLines || Text.startsWith s ['\'', '\'']) then
      some ([], if manyLines then s.drop 2 else s)
    else if isControl c && !(manyLines && c == '\n') then none
    else (literalBody manyLines s).map fun (value, rest) => (c :: value, rest)

/-- Up to two more quotes at the end of a text of many lines belong to it. -/
def withQuotes (quote : Char) (read : Text × Text) : Text × Text :=
  let more := (read.2.takeWhile (· == quote)).take 2
  (read.1 ++ more, read.2.drop more.length)

def afterOpening : Text → Text
  | '\n' :: s => s
  | s => s

def lineText? : Text → Option (Text × Text)
  | '"' :: s => basicBody false (s.length + 1) s
  | '\'' :: s => literalBody false s
  | _ => none

def text? (s : Text) : Option (Text × Text) :=
  match s with
  | '"' :: '"' :: '"' :: rest =>
    (basicBody true (rest.length + 1) (afterOpening rest)).map (withQuotes '"')
  | '\'' :: '\'' :: '\'' :: rest =>
    (literalBody true (afterOpening rest)).map (withQuotes '\'')
  | _ => lineText? s

/-! ## Numbers -/

def digitRun (isDigit : Char → Bool) (afterDigit : Bool) : Text → Text × Text
  | [] => ([], [])
  | c :: s =>
    if isDigit c then
      let (digits, rest) := digitRun isDigit true s
      (c :: digits, rest)
    else match c, s with
      | '_', d :: _ => if afterDigit && isDigit d then digitRun isDigit false s else ([], c :: s)
      | _, _ => ([], c :: s)

def fraction (s : Text) : Text × Text :=
  match s with
  | '.' :: rest =>
    match digitRun Char.isDigit false rest with
    | ([], _) => ([], s)
    | found => found
  | _ => ([], s)

def exponent (s : Text) : Option Int × Text :=
  match s with
  | c :: rest =>
    if c == 'e' || c == 'E' then
      let (negative, body) := Numeral.sign rest
      match digitRun Char.isDigit false body with
      | ([], _) => (none, s)
      | (digits, rest) => (some (Numeral.signed negative (Json.digitsValue digits)), rest)
    else (none, s)
  | [] => (none, [])

def radix? (c : Char) : Option Nat :=
  if c == 'x' then some 16 else if c == 'o' then some 8 else if c == 'b' then some 2 else none

def isDigitOf (radix : Nat) (c : Char) : Bool :=
  match Json.hexValue? c with
  | some d => d < radix
  | none => false

def radixNumber? : Text → Option (Nat × Text)
  | '0' :: mark :: s => do
    let radix ← radix? mark
    match digitRun (isDigitOf radix) false s with
    | ([], _) => none
    | (digits, rest) =>
      some (digits.foldl (fun n c => radix * n + (Json.hexValue? c).getD 0) 0, rest)
  | _ => none

def decimal (s : Text) : Except Failure (Datum × Text) :=
  let (negative, body) := Numeral.sign s
  let (whole, rest) := match body with
    | '0' :: rest => (['0'], rest)
    | _ => digitRun Char.isDigit false body
  if whole.isEmpty then .error .malformed
  else
    let (part, rest) := fraction rest
    let (power, rest) := exponent rest
    if part.isEmpty && power.isNone then
      if whole.length > Numeral.maxDigits then .error (.tooLong whole.length)
      else .ok (.integer (Numeral.signed negative (Json.digitsValue whole)), rest)
    else
      let all := (whole ++ part).dropWhile (· == '0')
      .ok (.number (Binary64.ofDecimal negative (Json.digitsValue all) all.length
        (power.getD 0 - part.length)), rest)

def named : List (Text × Datum) :=
  [("true".toList, .boolean true), ("false".toList, .boolean false), ("inf".toList,
    .number (.infinite false)), ("+inf".toList, .number (.infinite false)), ("-inf".toList,
    .number (.infinite true)), ("nan".toList, .number .nan), ("+nan".toList, .number .nan),
    ("-nan".toList, .number .nan)]

def plain (s : Text) : Except Failure (Datum × Text) :=
  match named.find? (Text.startsWith s ·.1) with
  | some (name, d) => .ok (d, s.drop name.length)
  | none =>
    match Moment.read? s with
    | some (m, rest) => .ok (.moment m, rest)
    | none =>
      match radixNumber? s with
      | some (n, rest) => .ok (.integer n, rest)
      | none => decimal s

end CommandShell.Toml
