import CommandShell.Element.Basic

/-!
Statements without operators: every token makes an element of its own.
-/

set_option autoImplicit false

namespace CommandShell

namespace Token

def IsOperand (t : Token) : Prop := t.kind ≠ .operator ∧ t.kind ≠ .endOfInput

def IsArgument (t : Token) : Prop := t.kind = .bare ∨ t.kind = .number ∨ t.kind = .verbatim

theorem IsArgument.isOperand {t : Token} (h : t.IsArgument) : t.IsOperand := by
  rcases h with h | h | h <;> simp [IsOperand, h]

theorem IsArgument.kind_ne {t : Token} (h : t.IsArgument) :
    t.kind ≠ .parameter ∧ t.kind ≠ .reference := by
  rcases h with h | h | h <;> simp [h]

theorem isOperator_eq_false {t : Token} {sign : Text} (h : t.kind ≠ .operator) :
    t.isOperator sign = false := by
  simp [isOperator, h]

end Token

namespace Element

theorem continuesList_iff {t : Token} : continuesList t = true ↔
    t.kind ≠ .parameter ∧ t.kind ≠ .operator ∧ t.kind ≠ .endOfInput := by
  simp [continuesList, and_assoc]

def ofToken (t : Token) : Element :=
  if t.kind = .parameter then .parameter t t.stop else .value [t] t.start t.stop

@[simp] theorem ofToken_text (t : Token) : (ofToken t).text = t.value := by
  unfold ofToken; split
  · exact text_parameter t t.stop
  · exact text_single t t.start t.stop

theorem ofToken_argument {t : Token} (h : t.IsArgument) :
    ofToken t = .value [t] t.start t.stop := by
  rw [ofToken, if_neg h.kind_ne.1]

theorem ofTokens_operand {t : Token} (h : t.IsOperand) {rest : List Token}
    (hr : ∀ u ∈ rest.head?, u.isOperator [','] = false) :
    ofTokens (t :: rest) = ofToken t :: ofTokens rest := by
  by_cases hp : t.kind = .parameter
  · rw [ofTokens_parameter hp, ofToken, if_pos hp]
  · have hc : continuesList t = true := by simp [continuesList, hp, h.1, h.2]
    rw [ofTokens_single hc hr, ofToken, if_neg hp]

theorem ofTokens_operands {ts : List Token} (h : ∀ t ∈ ts, t.IsOperand) {rest : List Token}
    (hr : ∀ u ∈ rest.head?, u.isOperator [','] = false) :
    ofTokens (ts ++ rest) = ts.map ofToken ++ ofTokens rest := by
  induction ts with
  | nil => rfl
  | cons t ts ih =>
    have hhead : ∀ u ∈ (ts ++ rest).head?, u.isOperator [','] = false := by
      cases ts with
      | nil => exact hr
      | cons u ts =>
        rintro _ ⟨⟩
        exact Token.isOperator_eq_false (h u (by simp)).1
    rw [List.cons_append, ofTokens_operand (h t (by simp)) hhead,
      ih fun u hu => h u (by simp [hu]), List.map_cons, List.cons_append]

end Element

end CommandShell
