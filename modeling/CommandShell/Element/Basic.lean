import CommandShell.Statement

/-!
Elements of a command invocation: a parameter, or a value that may be a list joined by commas.
-/

set_option autoImplicit false

namespace CommandShell

/-- One element. A value keeps the tokens it was made of; a comma at its end still belongs to it,
and a value that is not yet typed has no tokens. -/
inductive Element where
  | parameter (token : Token) (stop : Nat)
  | value (parts : List Token) (start stop : Nat)
  deriving DecidableEq

namespace Element

def isParameter : Element → Bool
  | .parameter .. => true
  | .value .. => false

def parts : Element → List Token
  | .parameter t _ => [t]
  | .value parts _ _ => parts

def text (e : Element) : Text := Text.join [','] (e.parts.map (·.value))

def raw (e : Element) : Text := Text.join [','] (e.parts.map (·.text))

@[simp] theorem text_parameter (t : Token) (stop : Nat) : (parameter t stop).text = t.value := by
  simp [text, parts, Text.join_cons]

@[simp] theorem text_single (t : Token) (start stop : Nat) :
    (value [t] start stop).text = t.value := by
  simp [text, parts, Text.join_cons]

def start : Element → Nat
  | .parameter t _ => t.start
  | .value _ start _ => start

def stop : Element → Nat
  | .parameter _ stop => stop
  | .value _ _ stop => stop

def inline : Element → Option Text
  | .parameter t _ => t.inline
  | .value .. => none

/-- The kind of the only part; a list counts as a bare word. -/
def kind (e : Element) : TokenKind :=
  match e.parts with
  | [t] => t.kind
  | _ => .bare

def contains (e : Element) (cursor : Int) : Bool :=
  (e.start : Int) ≤ cursor && cursor ≤ (e.stop : Int)

def continuesList (t : Token) : Bool :=
  !(t.kind == .parameter || t.kind == .operator || t.kind == .endOfInput)

/-- The tokens that commas join to a value, the end of a comma that nothing follows, and the
tokens left. -/
def listTail : List Token → List Token × Option Nat × List Token
  | [] => ([], none, [])
  | [t] => if t.isOperator [','] then ([], some t.stop, []) else ([], none, [t])
  | t :: next :: rest =>
    if t.isOperator [','] then
      if continuesList next then
        let (parts, stop, rest) := listTail rest
        (next :: parts, stop, rest)
      else ([], some t.stop, next :: rest)
    else ([], none, t :: next :: rest)

theorem listTail_rest_length_le (tokens : List Token) :
    (listTail tokens).2.2.length ≤ tokens.length := by
  fun_induction listTail tokens <;> simp_all
  omega

def ofParts (first : Token) (others : List Token) (stop : Option Nat) : Element :=
  .value (first :: others) first.start (stop.getD ((others.getLast?.getD first).stop))

/-- The elements of a statement; separators and stray commas make none. -/
def ofTokens (tokens : List Token) : List Element :=
  match tokens with
  | [] => []
  | t :: rest =>
    if t.kind == .endOfInput || t.kind == .operator then ofTokens rest
    else if t.kind == .parameter then .parameter t t.stop :: ofTokens rest
    else
      ofParts t (listTail rest).1 (listTail rest).2.1 :: ofTokens (listTail rest).2.2
termination_by tokens.length
decreasing_by
  · simp
  · simp
  · have := listTail_rest_length_le rest
    simp; omega

theorem ofTokens_nil : ofTokens [] = [] := by
  rw [ofTokens.eq_def]

theorem ofTokens_skip {t : Token} (h : t.kind = .endOfInput ∨ t.kind = .operator)
    (rest : List Token) : ofTokens (t :: rest) = ofTokens rest := by
  rw [ofTokens.eq_def]
  rcases h with h | h <;> simp [h]

theorem ofTokens_parameter {t : Token} (h : t.kind = .parameter) (rest : List Token) :
    ofTokens (t :: rest) = .parameter t t.stop :: ofTokens rest := by
  rw [ofTokens.eq_def]
  simp [h]

theorem ofTokens_value {t : Token} (h : continuesList t = true) (rest : List Token) :
    ofTokens (t :: rest) =
      ofParts t (listTail rest).1 (listTail rest).2.1 :: ofTokens (listTail rest).2.2 := by
  simp only [continuesList, Bool.not_eq_true', Bool.or_eq_false_iff] at h
  rw [ofTokens.eq_def]
  simp [h.1.1, h.1.2, h.2]

theorem listTail_of_head {tokens : List Token}
    (h : ∀ t ∈ tokens.head?, t.isOperator [','] = false) :
    listTail tokens = ([], none, tokens) := by
  match tokens, h with
  | [], _ => rfl
  | [t], h => simp [listTail, h t rfl]
  | t :: next :: rest, h => simp [listTail, h t rfl]

theorem ofTokens_single {t : Token} {rest : List Token} (h : continuesList t = true)
    (hr : ∀ u ∈ rest.head?, u.isOperator [','] = false) :
    ofTokens (t :: rest) = .value [t] t.start t.stop :: ofTokens rest := by
  rw [ofTokens_value h, listTail_of_head hr]
  rfl

/-- The position of the last element that contains the cursor. -/
def indexAt? (elements : List Element) (cursor : Int) : Option Nat :=
  if cursor < 0 then none
  else (elements.zipIdx.filter fun (e, _) => e.contains cursor).getLast?.map (·.2)

end Element

end CommandShell
