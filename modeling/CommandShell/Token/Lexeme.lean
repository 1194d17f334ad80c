import CommandShell.Token.Basic

/-!
The scanners. Each splits the text it is given into what it takes and what is left, so that the
parts taken always add up to the text.
-/

set_option autoImplicit false

namespace CommandShell

open Sign

structure Quotation where
  raw : Text
  value : Text
  closed : Bool
  rest : Text

def Quotation.after (raw value : Text) (q : Quotation) : Quotation :=
  { q with raw := raw ++ q.raw, value := value ++ q.value }

def Quotation.verbatim : Text → Quotation
  | [] => ⟨[], [], false, []⟩
  | [c] => if isSingleQuote c then ⟨[c], [], true, []⟩ else ⟨[c], [c], false, []⟩
  | c :: d :: s =>
    if isSingleQuote c then
      if isSingleQuote d then (verbatim s).after [c, d] [c] else ⟨[c], [], true, d :: s⟩
    else (verbatim (d :: s)).after [c] [c]

def Quotation.expandable : Text → Quotation
  | [] => ⟨[], [], false, []⟩
  | [c] =>
    if c == backtick then ⟨[c], [], false, []⟩
    else if isDoubleQuote c then ⟨[c], [], true, []⟩
    else ⟨[c], [c], false, []⟩
  | c :: d :: s =>
    if c == backtick then (expandable s).after [c, d] [unescaped d]
    else if isDoubleQuote c then
      if isDoubleQuote d then (expandable s).after [c, d] [c] else ⟨[c], [], true, d :: s⟩
    else (expandable (d :: s)).after [c] [c]

@[simp] theorem Quotation.after_raw_append_rest (raw value : Text) (q : Quotation) :
    (q.after raw value).raw ++ (q.after raw value).rest = raw ++ (q.raw ++ q.rest) := by
  simp [Quotation.after]

theorem Quotation.verbatim_raw_append_rest (s : Text) :
    (verbatim s).raw ++ (verbatim s).rest = s := by
  fun_induction verbatim s <;> simp_all

theorem Quotation.expandable_raw_append_rest (s : Text) :
    (expandable s).raw ++ (expandable s).rest = s := by
  fun_induction expandable s <;> simp_all

theorem Quotation.verbatim_rest_length_le (s : Text) : (verbatim s).rest.length ≤ s.length := by
  have h := congrArg List.length (verbatim_raw_append_rest s)
  simp at h; omega

theorem Quotation.expandable_rest_length_le (s : Text) :
    (expandable s).rest.length ≤ s.length := by
  have h := congrArg List.length (expandable_raw_append_rest s)
  simp at h; omega

inductive Unclosed where
  | quote
  | reference
  deriving DecidableEq

/-- A word, with the quoted parts inside it. -/
structure Word where
  raw : Text
  value : Text
  literal : Bool
  /-- how far into the word a quote opens that nothing closes -/
  opened : Option Nat
  rest : Text

def Word.after (raw value : Text) (literal : Bool) (w : Word) : Word :=
  { w with
    raw := raw ++ w.raw
    value := value ++ w.value
    literal := literal && w.literal
    opened := w.opened.map (· + raw.length) }

def Word.nothing (rest : Text) : Word := ⟨[], [], true, none, rest⟩

def endsWord : Text → Bool
  | [] => true
  | c :: _ => isBlank c || c == '\n'

/-- The word at the start of a text. `previous` is the character before, inside the word: after an
exclamation mark an angle sign that ends the word belongs to it. -/
def Word.scan (previous : Option Char) (s : Text) : Word :=
  match s with
  | [] => nothing []
  | c :: rest =>
    if isBlank c || c == '\n' then nothing (c :: rest)
    else if isOperator c then
      if (c == '<' || c == '>') && previous == some '!' && endsWord rest then
        (scan (some c) rest).after [c] [c] true
      else nothing (c :: rest)
    else if c == backtick then
      match rest with
      | [] => ⟨[c], [], false, none, []⟩
      | d :: rest => (scan (some d) rest).after [c, d] [d] false
    else if isSingleQuote c then
      let q := Quotation.verbatim rest
      if q.closed then (scan (some c) q.rest).after (c :: q.raw) q.value false
      else ⟨c :: q.raw, q.value, false, some 0, q.rest⟩
    else if isDoubleQuote c then
      let q := Quotation.expandable rest
      if q.closed then (scan (some c) q.rest).after (c :: q.raw) q.value false
      else ⟨c :: q.raw, q.value, false, some 0, q.rest⟩
    else (scan (some c) rest).after [c] [c] (c != '$')
termination_by s.length
decreasing_by
  all_goals
    simp only [List.length_cons]
    have := Quotation.verbatim_rest_length_le rest
    have := Quotation.expandable_rest_length_le rest
    omega

@[simp] theorem Word.after_raw_append_rest (raw value : Text) (literal : Bool) (w : Word) :
    (w.after raw value literal).raw ++ (w.after raw value literal).rest
      = raw ++ (w.raw ++ w.rest) := by
  simp [Word.after]

theorem Word.scan_raw_append_rest (previous : Option Char) (s : Text) :
    (scan previous s).raw ++ (scan previous s).rest = s := by
  fun_induction scan previous s <;>
    simp_all +zetaDelta [nothing, Quotation.verbatim_raw_append_rest,
      Quotation.expandable_raw_append_rest]

structure Reference where
  raw : Text
  name : Text
  closed : Bool
  rest : Text

/-- A name in braces, one of the signs that are names by themselves, or a plain name. -/
def Reference.scan? : Text → Option Reference
  | [] => none
  | c :: rest =>
    if c == '{' then
      let name := rest.takeWhile (· != '}')
      match rest.dropWhile (· != '}') with
      | brace :: rest => some ⟨c :: name ++ [brace], name, true, rest⟩
      | [] => some ⟨c :: name, name, false, []⟩
    else if c == '$' || c == '?' || c == '^' then some ⟨[c], [c], true, rest⟩
    else
      let name := (c :: rest).takeWhile isReferenceChar
      if name.isEmpty then none
      else some ⟨name, name, true, (c :: rest).dropWhile isReferenceChar⟩

theorem Reference.scan?_raw_append_rest {s : Text} {r : Reference} (h : scan? s = some r) :
    r.raw ++ r.rest = s := by
  unfold scan? at h
  split at h
  · simp at h
  · rename_i c rest
    have hb := List.takeWhile_append_dropWhile (p := (· != '}')) (l := rest)
    split at h
    · simp only at h
      split at h <;> simp_all <;> subst h <;> simp_all
    · split at h
      · simp_all; subst h; simp
      · simp only at h
        split at h
        · simp at h
        · simp only [Option.some.injEq] at h
          subst h
          exact List.takeWhile_append_dropWhile

structure Lexeme where
  kind : TokenKind
  raw : Text
  value : Text
  inline : Option Text
  literal : Bool
  /-- what it leaves open, and how far into it that opens -/
  opened : Option (Nat × Unclosed)
  rest : Text

namespace Lexeme

/-- Digits with an optional sign, fraction and exponent. -/
def isNumber (s : Text) : Bool :=
  let body := match s with
    | c :: rest => if c == '+' || c == '-' then rest else s
    | [] => []
  let whole := body.takeWhile Text.isDecimal
  let (part, rest) := match body.dropWhile Text.isDecimal with
    | '.' :: rest => (rest.takeWhile Text.isDecimal, rest.dropWhile Text.isDecimal)
    | rest => ([], rest)
  !(whole.isEmpty && part.isEmpty) && isExponent rest
where
  isExponent : Text → Bool
    | [] => true
    | c :: rest =>
      let digits := match rest with
        | d :: more => if d == '+' || d == '-' then more else rest
        | [] => []
      (c == 'e' || c == 'E') && !digits.isEmpty && digits.all Text.isDecimal

def operator (c : Char) (rest : Text) : Lexeme :=
  match rest with
  | d :: rest' =>
    if c == d && (c == '&' || c == '|') then ⟨.operator, [c, d], [c, d], none, true, none, rest'⟩
    else ⟨.operator, [c], [c], none, true, none, rest⟩
  | [] => ⟨.operator, [c], [c], none, true, none, []⟩

def quoted (kind : TokenKind) (c : Char) (literal : Bool) (q : Quotation) : Lexeme :=
  ⟨kind, c :: q.raw, q.value, none, literal, if q.closed then none else some (0, .quote), q.rest⟩

def reference (c : Char) (r : Reference) : Lexeme :=
  ⟨.reference, c :: r.raw, r.name, none, false,
    if r.closed then none else some (0, .reference), r.rest⟩

/-- A word; `@` at its start asks for splatting. -/
def word (s : Text) : Lexeme :=
  let w := Word.scan none s
  let literal := w.literal && s.head? != some '@'
  ⟨if literal && isNumber w.value then .number else .bare, w.raw, w.value, none, literal,
    w.opened.map (·, .quote), w.rest⟩

/-- A parameter name after its dash. A colon that no second colon follows begins an inline value;
a bare colon leaves the next token to be the argument. -/
def parameter (dash : Char) (s : Text) : Lexeme :=
  let name := s.takeWhile isParameterChar
  let rest := s.dropWhile isParameterChar
  match rest with
  | ':' :: more =>
    if more.head? == some ':' then ⟨.parameter, dash :: name, name, none, true, none, rest⟩
    else
      let w := Word.scan none more
      ⟨.parameter, dash :: name ++ ':' :: w.raw, name, if w.raw.isEmpty then none else some w.value,
        true, w.opened.map (· + name.length + 2, .quote), w.rest⟩
  | _ => ⟨.parameter, dash :: name, name, none, true, none, rest⟩

def scan (c : Char) (rest : Text) : Lexeme :=
  if isOperator c then operator c rest
  else if isSingleQuote c then quoted .verbatim c true (Quotation.verbatim rest)
  else if isDoubleQuote c then quoted .expandable c false (Quotation.expandable rest)
  else if c == '$' then
    match Reference.scan? rest with
    | some r => reference c r
    | none => word (c :: rest)
  else if isDash c && rest.head?.any startsParameter then parameter c rest
  else word (c :: rest)

theorem word_raw_append_rest (s : Text) : (word s).raw ++ (word s).rest = s :=
  Word.scan_raw_append_rest none s

theorem operator_raw_append_rest (c : Char) (rest : Text) :
    (operator c rest).raw ++ (operator c rest).rest = c :: rest := by
  unfold operator
  split
  · split <;> simp_all
  · simp

theorem parameter_raw_append_rest (dash : Char) (s : Text) :
    (parameter dash s).raw ++ (parameter dash s).rest = dash :: s := by
  have h := List.takeWhile_append_dropWhile (p := isParameterChar) (l := s)
  unfold parameter
  simp only
  split
  · rename_i more heq
    split
    · simp [h]
    · have hw := Word.scan_raw_append_rest none more
      simp [hw]
      rw [← heq, h]
  · simp [h]

theorem scan_raw_append_rest (c : Char) (rest : Text) :
    (scan c rest).raw ++ (scan c rest).rest = c :: rest := by
  unfold scan
  split
  · exact operator_raw_append_rest c rest
  · split
    · simp [quoted, Quotation.verbatim_raw_append_rest]
    · split
      · simp [quoted, Quotation.expandable_raw_append_rest]
      · split
        · split
          · rename_i r h
            simp [reference, Reference.scan?_raw_append_rest h]
          · exact word_raw_append_rest _
        · split
          · exact parameter_raw_append_rest c rest
          · exact word_raw_append_rest _

end Lexeme

end CommandShell
