import CommandShell.Token.Lexeme

/-!
The tokens of a text. A text with an open quote is still split, its last token running to the end;
the strict reading refuses it.
-/

set_option autoImplicit false

namespace CommandShell

abbrev Placed := Nat × Lexeme

namespace Lexeme

theorem scan_rest_length (c : Char) (rest : Text) :
    (scan c rest).raw.length + (scan c rest).rest.length = rest.length + 1 := by
  have h := congrArg List.length (scan_raw_append_rest c rest)
  simpa using h

theorem word_raw_length_pos {c : Char} {rest : Text} (hb : Sign.isBlank c = false)
    (ho : Sign.isOperator c = false) : 0 < (word (c :: rest)).raw.length := by
  have hn : (c == '\n') = false := by
    simp only [Sign.isOperator, List.contains_eq_mem, decide_eq_false_iff_not] at ho
    simp only [beq_eq_false_iff_ne]
    rintro rfl
    exact ho (by decide)
  simp only [word]
  rw [Word.scan.eq_def]
  simp only [hb, hn, ho, Bool.or_self, Bool.false_eq_true, if_false]
  split
  · split <;> simp [Word.after]
  · split
    · split <;> simp [Word.after]
    · split
      · split <;> simp [Word.after]
      · simp [Word.after]

theorem scan_raw_length_pos {c : Char} {rest : Text} (hb : Sign.isBlank c = false) :
    0 < (scan c rest).raw.length := by
  unfold scan
  split
  · unfold operator; split
    · split <;> simp
    · simp
  · rename_i ho
    have ho : Sign.isOperator c = false := by simpa using ho
    split
    · simp [quoted]
    · split
      · simp [quoted]
      · split
        · split
          · simp [reference]
          · exact word_raw_length_pos hb ho
        · split
          · unfold parameter; simp only; split
            · split <;> simp
            · simp
          · exact word_raw_length_pos hb ho

/-- The lexemes of a text that begins at offset `start`. A comment runs from `#` to the end of the
line. -/
def scanAll (start : Nat) (s : Text) : List Placed :=
  match s with
  | [] => []
  | c :: rest =>
    if hb : Sign.isBlank c then scanAll (start + 1) rest
    else if c == '#' then
      scanAll (start + 1 + (rest.takeWhile (· != '\n')).length) (rest.dropWhile (· != '\n'))
    else (start, scan c rest) :: scanAll (start + (scan c rest).raw.length) (scan c rest).rest
termination_by s.length
decreasing_by
  · simp
  · have := (List.dropWhile_suffix (· != '\n') (l := rest)).length_le
    simp; omega
  · have h₁ := scan_rest_length c rest
    have h₂ := @scan_raw_length_pos c rest (by simpa using hb)
    simp; omega

end Lexeme

/-- Why a text is refused by the strict reading, and where. -/
structure SyntaxFault where
  cause : Unclosed
  offset : Nat
  deriving DecidableEq

def SyntaxFault.message (f : SyntaxFault) : Text :=
  (match f.cause with
    | .quote => "Unterminated string"
    | .reference => "Unterminated variable reference").toList
    ++ " at offset ".toList ++ Text.ofNat f.offset

namespace Token

def ofLexeme (placed : Placed) : Token :=
  let (start, l) := placed
  ⟨l.kind, l.raw, l.value, start, l.inline, l.literal⟩

@[simp] theorem ofLexeme_text (start : Nat) (l : Lexeme) : (ofLexeme (start, l)).text = l.raw := rfl

@[simp] theorem ofLexeme_stop (start : Nat) (l : Lexeme) :
    (ofLexeme (start, l)).stop = start + l.raw.length := rfl

def finish (length : Nat) : Token := ⟨.endOfInput, [], [], length, none, true⟩

def scan (s : Text) : List Token :=
  (Lexeme.scanAll 0 s).map ofLexeme ++ [finish s.length]

def fault? (s : Text) : Option SyntaxFault :=
  (Lexeme.scanAll 0 s).findSome? fun (start, l) =>
    l.opened.map fun (offset, cause) => ⟨cause, start + offset⟩

theorem fault?_eq_none {s : Text} (h : ∀ p ∈ Lexeme.scanAll 0 s, p.2.opened = none) :
    fault? s = none := by
  rw [fault?, List.findSome?_eq_none_iff]
  intro p hp
  simp only [h p hp, Option.map_none]

def scanStrict (s : Text) : Except SyntaxFault (List Token) :=
  match fault? s with
  | some fault => .error fault
  | none => .ok (scan s)

theorem scanStrict_eq_ok {s : Text} (h : fault? s = none) : scanStrict s = .ok (scan s) := by
  simp only [scanStrict, h]

end Token

end CommandShell
