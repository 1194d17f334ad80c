import CommandShell.Proofs.Element.Single
import CommandShell.Proofs.Quoting.Argument

/-!
A list of values, each quoted if need be and separated by blanks, is read back as those values.
-/

set_option autoImplicit false

namespace CommandShell.Quoting

def spaced (vs : List Text) : Text := vs.flatMap fun v => ' ' :: quoteIfNeeded v

theorem endsWord_spaced (vs : List Text) : endsWord (spaced vs) = true := by
  cases vs <;> rfl

def line (vs : List Text) : Text := Text.join [' '] (vs.map quoteIfNeeded)

theorem line_cons (v : Text) (vs : List Text) : line (v :: vs) = quoteIfNeeded v ++ spaced vs := by
  rw [line, List.map_cons, Text.join_cons, List.flatMap_map]
  rfl

theorem scanAll_spaced_cons (start : Nat) (v : Text) (vs : List Text) :
    Lexeme.scanAll start (spaced (v :: vs)) = (start + 1, argument v (spaced vs)) ::
      Lexeme.scanAll (start + 1 + (quoteIfNeeded v).length) (spaced vs) := by
  rw [spaced, List.flatMap_cons, List.cons_append, Lexeme.scanAll_blank rfl]
  exact scanAll_quoteIfNeeded _ v (endsWord_spaced vs)

theorem exists_argument_of_mem {start : Nat} {vs : List Text} {p : Placed}
    (h : p ∈ Lexeme.scanAll start (spaced vs)) : ∃ v tail, p.2 = argument v tail := by
  induction vs generalizing start with
  | nil => simp [spaced, Lexeme.scanAll_nil] at h
  | cons v vs ih =>
    rw [scanAll_spaced_cons] at h
    rcases List.mem_cons.mp h with rfl | h
    · exact ⟨v, _, rfl⟩
    · exact ih h

theorem map_value_scanAll_spaced (start : Nat) (vs : List Text) :
    (Lexeme.scanAll start (spaced vs)).map (·.2.value) = vs := by
  induction vs generalizing start with
  | nil => simp [spaced, Lexeme.scanAll_nil]
  | cons v vs ih => rw [scanAll_spaced_cons, List.map_cons, argument_value, ih]

theorem ofTokens_arguments {ts : List Token}
    (h : ∀ t ∈ ts, t.IsArgument) (n : Nat) :
    Element.ofTokens (ts ++ [Token.finish n]) = ts.map fun t => .value [t] t.start t.stop := by
  have hfinish : ∀ u ∈ [Token.finish n].head?, u.isOperator [','] = false := by
    rintro _ ⟨⟩
    rfl
  rw [Element.ofTokens_operands (fun t ht => (h t ht).isOperand) hfinish,
    Element.ofTokens_skip (.inl rfl), Element.ofTokens_nil, List.append_nil]
  exact List.map_congr_left fun t ht => Element.ofToken_argument (h t ht)

theorem scanAll_line_cons (v : Text) (vs : List Text) :
    Lexeme.scanAll 0 (line (v :: vs)) = (0, argument v (spaced vs)) ::
      Lexeme.scanAll (0 + (quoteIfNeeded v).length) (spaced vs) := by
  rw [line_cons]
  exact scanAll_quoteIfNeeded 0 v (endsWord_spaced vs)

theorem exists_argument_of_mem_line {vs : List Text} {p : Placed}
    (h : p ∈ Lexeme.scanAll 0 (line vs)) : ∃ v tail, p.2 = argument v tail := by
  cases vs with
  | nil => simp [line, Lexeme.scanAll_nil] at h
  | cons v vs =>
    rw [scanAll_line_cons] at h
    rcases List.mem_cons.mp h with rfl | h
    · exact ⟨v, _, rfl⟩
    · exact exists_argument_of_mem h

theorem map_value_scanAll_line (vs : List Text) :
    (Lexeme.scanAll 0 (line vs)).map (·.2.value) = vs := by
  cases vs with
  | nil => simp [line, Lexeme.scanAll_nil]
  | cons v vs =>
    rw [scanAll_line_cons, List.map_cons, argument_value, map_value_scanAll_spaced]

theorem exists_arguments_line (vs : List Text) :
    ∃ ts n, Token.scanStrict (line vs) = .ok (ts ++ [Token.finish n]) ∧
      (∀ t ∈ ts, t.IsArgument) ∧ ts.map (·.value) = vs := by
  have hopened : ∀ p ∈ Lexeme.scanAll 0 (line vs), p.2.opened = none := by
    intro p hp
    obtain ⟨v, tail, h⟩ := exists_argument_of_mem_line hp
    rw [h, argument_opened]
  refine ⟨(Lexeme.scanAll 0 (line vs)).map Token.ofLexeme, (line vs).length,
    Token.scanStrict_eq_ok (Token.fault?_eq_none hopened), ?_, ?_⟩
  · intro t ht
    obtain ⟨p, hp, rfl⟩ := List.mem_map.mp ht
    obtain ⟨v, tail, h⟩ := exists_argument_of_mem_line hp
    simp only [Token.IsArgument, Token.ofLexeme, h]
    exact argument_kind v tail
  · rw [List.map_map]
    exact map_value_scanAll_line vs

/-- Values on a line, each quoted if need be, are read back as as many literal tokens and as many
elements, with the values in order. -/
theorem scanStrict_line (vs : List Text) :
    ∃ ts, Token.scanStrict (line vs) = .ok (ts ++ [Token.finish (line vs).length]) ∧
      ts.map (·.value) = vs ∧
      (∀ t ∈ ts, (t.kind = .bare ∨ t.kind = .number ∨ t.kind = .verbatim) ∧ t.literal = true) ∧
      Element.ofTokens (ts ++ [Token.finish (line vs).length]) =
        ts.map (fun t => .value [t] t.start t.stop) ∧
      (Element.ofTokens (ts ++ [Token.finish (line vs).length])).map (·.text) = vs := by
  have hfault : Token.fault? (line vs) = none := by
    refine Token.fault?_eq_none fun p hp => ?_
    obtain ⟨v, tail, h⟩ := exists_argument_of_mem_line hp
    rw [h, argument_opened]
  have hvalues : ((Lexeme.scanAll 0 (line vs)).map Token.ofLexeme).map (·.value) = vs := by
    rw [List.map_map]
    exact map_value_scanAll_line vs
  have harguments : ∀ t ∈ (Lexeme.scanAll 0 (line vs)).map Token.ofLexeme,
      (t.kind = .bare ∨ t.kind = .number ∨ t.kind = .verbatim) ∧ t.literal = true := by
    intro t ht
    obtain ⟨p, hp, rfl⟩ := List.mem_map.mp ht
    obtain ⟨v, tail, h⟩ := exists_argument_of_mem_line hp
    simp only [Token.ofLexeme, h]
    exact ⟨argument_kind v tail, argument_literal v tail⟩
  have helements := ofTokens_arguments
    (fun t ht => (harguments t ht).1) (line vs).length
  refine ⟨_, Token.scanStrict_eq_ok hfault, hvalues, harguments, helements, ?_⟩
  rw [helements, List.map_map]
  simpa only [Function.comp_def, Element.text_single] using hvalues

end CommandShell.Quoting
