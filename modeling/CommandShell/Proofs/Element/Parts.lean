import CommandShell.Proofs.Element.Append
import CommandShell.Proofs.Statement.Segments
import CommandShell.Proofs.Token.Parameter

/-!
The elements of a statement keep its tokens. Each token that is no operator is a part of one
element, and the parts come in the order of the tokens. What goes on behind a comma is `Joins`.
-/

set_option autoImplicit false

namespace CommandShell

instance (t : Token) : Decidable t.IsOperand :=
  inferInstanceAs (Decidable (t.kind ≠ .operator ∧ t.kind ≠ .endOfInput))

namespace Element

/-- How elements lie over the tokens of their statement. -/
structure Arranges (ts : List Token) (es : List Element) : Prop where
  parts : es.flatMap parts = ts.filter (·.IsOperand)
  alone : ∀ e ∈ es, e.isParameter = true → ∃ t, e.parts = [t] ∧ t.kind = .parameter
  proper : ∀ e ∈ es, e.start < e.stop
  first : ∀ e ∈ es, ∃ t, e.parts.head? = some t ∧ e.start = t.start
  last : ∀ e ∈ es, ∃ t, e.parts.getLast? = some t ∧ t.stop ≤ e.stop
  ordered : es.Pairwise fun e f => e.stop ≤ f.start

variable {t a : Token} {ts rest others left : List Token} {stop : Option Nat} {n : Nat}

theorem isOperand_of_continuesList (h : continuesList t = true) : t.IsOperand :=
  (continuesList_iff.mp h).2

theorem not_isOperand_of_isOperator {sign : Text} (h : t.isOperator sign = true) :
    ¬ t.IsOperand := by
  simp only [Token.isOperator, Bool.and_eq_true, beq_iff_eq] at h
  exact fun ho => ho.1 h.1

/-- Of the tokens behind a value the commas are dropped that join others to it, and the one that
joins nothing. -/
theorem Joins.filter_isOperand (h : Joins t rest others stop left) :
    rest.filter (·.IsOperand) = others ++ left.filter (·.IsOperand) := by
  induction h with
  | done => rfl
  | trailing hc _ =>
    rw [List.filter_cons_of_neg (by simpa using not_isOperand_of_isOperator hc), List.nil_append]
  | next hc hu _ ih =>
    rw [List.filter_cons_of_neg (by simpa using not_isOperand_of_isOperator hc),
      List.filter_cons_of_pos (by simpa using isOperand_of_continuesList hu), ih, List.cons_append]

theorem flatMap_parts_ofTokens (ts : List Token) :
    (ofTokens ts).flatMap parts = ts.filter (·.IsOperand) := by
  fun_induction ofTokens ts with
  | case1 => rfl
  | case2 t rest hk ih =>
    have hskip : ¬ t.IsOperand := by
      rintro ⟨ho, he⟩
      simp [ho, he] at hk
    rw [List.filter_cons_of_neg (by simpa using hskip), ih]
  | case3 t rest _ hk ih =>
    have hp : t.kind = .parameter := by simpa using hk
    have hkeep : t.IsOperand := by simp [Token.IsOperand, hp]
    rw [List.filter_cons_of_pos (by simpa using hkeep), List.flatMap_cons, ih]
    rfl
  | case4 t rest hk hp ih =>
    have hkeep := isOperand_of_continuesList (continuesList_of_not hk hp)
    rw [List.filter_cons_of_pos (by simpa using hkeep), List.flatMap_cons, ih,
      (joins_listTail t rest).filter_isOperand]
    rfl

theorem ofTokens_first {e : Element} (h : e ∈ ofTokens ts) :
    ∃ t, e.parts.head? = some t ∧ e.start = t.start := by
  fun_induction ofTokens ts with
  | case1 => cases h
  | case2 t rest hk ih => exact ih h
  | case3 t rest _ hk ih =>
    rcases List.mem_cons.mp h with rfl | h
    · exact ⟨t, rfl, rfl⟩
    · exact ih h
  | case4 t rest hk hp ih =>
    rcases List.mem_cons.mp h with rfl | h
    · exact ⟨t, rfl, rfl⟩
    · exact ih h

theorem alone_of_isParameter {e : Element} (h : e ∈ ofTokens ts) (hp : e.isParameter = true) :
    ∃ t, e.parts = [t] ∧ t.kind = .parameter := by
  cases e with
  | value => cases hp
  | parameter t stop =>
    have hkind := ((parts_of_mem h).2 t (List.mem_singleton_self t)).2
    rw [if_pos hp] at hkind
    exact ⟨t, rfl, hkind⟩

theorem text_ne_nil_of_mem {s : Text} (hts : ∀ t ∈ ts, t ∈ Token.scan s) {e : Element}
    (h : e ∈ ofTokens ts) (hp : e.isParameter = true) : e.text ≠ [] := by
  have hparts := (parts_of_mem h).2
  cases e with
  | value => cases hp
  | parameter t stop =>
    obtain ⟨hin, hkind⟩ := hparts t (List.mem_singleton_self t)
    rw [if_pos hp] at hkind
    rcases List.mem_append.mp (hts t hin) with ht | ht
    · obtain ⟨q, hq, rfl⟩ := List.mem_map.mp ht
      obtain ⟨c, rest, -, hscan⟩ := Lexeme.exists_scan_of_mem hq
      have hk : (Lexeme.scan c rest).kind = .parameter := hscan ▸ hkind
      obtain ⟨d, name, hvalue, -⟩ := Lexeme.exists_value_of_parameter hk
      rw [text_parameter, Token.ofLexeme, hscan]
      exact hvalue ▸ List.cons_ne_nil d name
    · obtain rfl := List.mem_singleton.mp ht
      cases hkind

theorem ofTokens_last (hlaid : Token.Laid n ts) {e : Element} (h : e ∈ ofTokens ts) :
    ∃ t, e.parts.getLast? = some t ∧ t.stop ≤ e.stop := by
  have hlast := List.getLast?_eq_some_getLast (parts_of_mem h).1
  exact ⟨_, hlast, ((ofTokens_within hlaid e h).parts _ (List.mem_of_getLast? hlast)).2.2⟩

theorem arranges_ofTokens (h : Token.Laid n ts) : Arranges ts (ofTokens ts) where
  parts := flatMap_parts_ofTokens ts
  alone _ := alone_of_isParameter
  proper := ofTokens_start_lt h
  first _ := ofTokens_first
  last _ := ofTokens_last h
  ordered := ofTokens_ordered h

theorem ofTokens_append_endOfInput (ts : List Token) (ha : a.kind = .endOfInput) :
    ofTokens (ts ++ [a]) = ofTokens ts := by
  fun_induction ofTokens ts with
  | case1 => rw [List.nil_append, ofTokens_skip (.inl ha), ofTokens_nil]
  | case2 t rest hk ih => rw [List.cons_append, ofTokens_skip (by simpa using hk), ih]
  | case3 t rest _ hk ih => rw [List.cons_append, ofTokens_parameter (by simpa using hk), ih]
  | case4 t rest hk hp ih =>
    have hcomma : a.isOperator [','] = false := by simp [Token.isOperator, ha]
    have hend : continuesList a = false := by simp [continuesList, ha]
    rw [List.cons_append, ((joins_listTail t rest).append hcomma (.inl hend)).ofTokens_eq
      (continuesList_of_not hk hp), ih]

/-- Whichever way a text is read, the elements of all its tokens and those of the statement under
any cursor keep the tokens that they are made of. -/
theorem arranges_of_read {strict : Bool} {s : Text} {tokens : List Token}
    (h : Token.read strict s = .ok tokens) :
    Arranges tokens (ofTokens tokens) ∧
      ∀ cursor : Int, Arranges (Statement.at? tokens cursor)
        (ofTokens (Statement.at? tokens cursor)) := by
  obtain rfl := Token.eq_scan_of_read h
  refine ⟨?_, fun cursor => arranges_ofTokens (Statement.laid_at? s cursor)⟩
  have hlaid := Token.laid_scanAll s
  have hends := ofTokens_append_endOfInput ((Lexeme.scanAll 0 s).map Token.ofLexeme)
    (a := Token.finish s.length) rfl
  rw [Token.scan, hends]
  refine { arranges_ofTokens hlaid with parts := ?_ }
  rw [flatMap_parts_ofTokens, List.filter_append]
  exact (List.append_nil _).symm

/-- Commas in every place: before a parameter, repeated, and at both ends of a statement. -/
theorem arranges_of_read_commas :
    let line := "Get a,b, -N:x ,, 'c' , ; ,d,$e".toList
    Token.read true line = .ok (Token.scan line) ∧
      (ofTokens (Token.scan line)).map raw =
        ["Get".toList, "a,b".toList, "-N:x".toList, "'c'".toList, "d,$e".toList] ∧
      Arranges (Token.scan line) (ofTokens (Token.scan line)) ∧
      Arranges (Statement.at? (Token.scan line) 30)
        (ofTokens (Statement.at? (Token.scan line) 30)) := by
  intro line
  have hline : Token.read true line = .ok (Token.scan line) :=
    Token.scanStrict_eq_ok (by decide +kernel)
  obtain ⟨hall, hstatement⟩ := arranges_of_read hline
  exact ⟨hline, by decide +kernel, hall, hstatement 30⟩

end Element

end CommandShell
