import CommandShell.Proofs.Completion.Pair
import CommandShell.Proofs.Element.Around

/-!
Another name in the place of the name of a parameter, in the midst of a line. What is in front of
the dash stays what it was, and the name is read to its end.
-/

set_option autoImplicit false

namespace CommandShell

open Sign

theorem Sign.isParameterChar_of_ends {c : Char} (h : isBlank c = true ∨ isOperator c = true) :
    isParameterChar c = false := by
  have hall : ([' ', '\t', '\r'] ++ ";|&,(){}<>\n".toList).any isParameterChar = false := by
    decide +kernel
  refine eq_false_of_any hall (List.mem_append.mpr (h.imp (fun h => ?_) fun h => ?_))
  · simpa [isBlank, or_assoc] using h
  · simpa [isOperator] using h

namespace Lexeme

variable {c : Char} {back : Text}

theorem head?_behind_dash (hdash : isDash c = true) (hraw : (scan c back).raw = [c]) :
    back.head?.any isParameterChar = false := by
  have hkind : (scan c back).kind ≠ .parameter := by
    intro hkind
    obtain ⟨d, name, hvalue, -⟩ := exists_value_of_parameter hkind
    have hlt := scan_name_lt hkind
    rw [hvalue, hraw] at hlt
    simp at hlt
  have hnone : back.head?.any startsParameter = false := by
    refine Bool.eq_false_iff.mpr fun h => hkind ?_
    rw [scan_of_isDash hdash h]
    exact parameter_kind c back
  have hword : (Word.scan (some c) back).raw = [] := by
    have hscan : (scan c back).raw = (Word.scan none (c :: back)).raw := by
      rcases eq_of_isDash hdash with rfl | rfl | rfl | rfl <;>
        simp [scan, isOperator, isSingleQuote, isDoubleQuote, hnone, word]
    have hordinary : IsOrdinary c := by
      rcases eq_of_isDash hdash with rfl | rfl | rfl | rfl <;> exact ⟨rfl, rfl, rfl, rfl, rfl, rfl⟩
    rw [hraw, Word.scan_cons_ordinary hordinary] at hscan
    exact (List.cons.inj hscan).2.symm
  have hmark : some c ≠ some '!' := by
    rcases eq_of_isDash hdash with rfl | rfl | rfl | rfl <;> simp
  rw [Word.scan_previous hmark] at hword
  cases back with
  | nil => rfl
  | cons d back =>
    refine isParameterChar_of_ends ?_
    by_contra hends
    obtain ⟨hb, ho⟩ := not_or.mp hends
    have hpos := @word_raw_length_pos d back (Bool.not_eq_true _ ▸ hb) (Bool.not_eq_true _ ▸ ho)
    rw [word, hword] at hpos
    cases hpos

end Lexeme

namespace Token

variable {line : Text} {t : Token}

theorem exists_scan_of_mem (h : t ∈ ofText line) : ∃ c back,
    line.drop t.start = c :: back ∧ t = ofLexeme (t.start, Lexeme.scan c back) := by
  obtain ⟨q, hq, rfl⟩ := List.mem_map.mp h
  obtain ⟨ps, more, hscan⟩ := List.append_of_mem hq
  obtain ⟨front, c, back, rfl, rfl, -⟩ := Lexeme.scanAll_replace hscan
  refine ⟨c, back, ?_, by simp [ofLexeme]⟩
  simp [ofLexeme]

theorem IsOperand.isBoundary (h : t.IsOperand) : Statement.isBoundary t = false := by
  simp [Statement.isBoundary, h.1]

/-- A dash with a name behind it, which may be empty, and no more of a name behind that. -/
structure NameAt (line : Text) (start : Nat) (name : Text) : Prop where
  dash : ∃ c, isDash c = true ∧ line.drop start = c :: (name ++ line.drop (start + 1 + name.length))
  chars : ∀ c ∈ name, isParameterChar c = true
  ends : (line.drop (start + 1 + name.length)).head?.any isParameterChar = false

theorem nameAt_of_parameter (h : t ∈ ofText line) (hp : t.kind = .parameter) :
    NameAt line t.start t.value := by
  obtain ⟨c, back, hdrop, ht⟩ := exists_scan_of_mem h
  have hkind : (Lexeme.scan c back).kind = .parameter := by
    rw [ht] at hp
    exact hp
  obtain ⟨hscan, hdash, -⟩ := Lexeme.scan_eq_parameter hkind
  have hvalue : t.value = back.takeWhile isParameterChar := by
    rw [ht, ← Lexeme.parameter_value c back, ← hscan]
    rfl
  have hsplit := List.takeWhile_append_dropWhile (p := isParameterChar) (l := back)
  have hbehind : line.drop (t.start + 1 + t.value.length) = back.dropWhile isParameterChar := by
    have hdropped := congrArg (List.drop t.value.length) hsplit
    rw [← hvalue, List.drop_left] at hdropped
    rw [Nat.add_assoc, ← List.drop_drop, hdrop, Nat.add_comm, List.drop_succ_cons, hdropped]
  refine ⟨⟨c, hdash, ?_⟩, ?_, ?_⟩
  · rw [hbehind, hdrop, hvalue, hsplit]
  · rw [hvalue]
    exact List.all_eq_true.mp List.all_takeWhile
  · rw [hbehind]
    exact any_head?_dropWhile isParameterChar back

theorem nameAt_of_dash (h : t ∈ ofText line) {c : Char} (htext : t.text = [c])
    (hdash : isDash c = true) : NameAt line t.start [] := by
  obtain ⟨d, back, hdrop, ht⟩ := exists_scan_of_mem h
  have hraw : (Lexeme.scan d back).raw = [c] := by
    rw [ht] at htext
    exact htext
  obtain rfl : d = c := by
    have happend := Lexeme.scan_raw_append_rest d back
    rw [hraw] at happend
    exact (List.cons.inj happend).1.symm
  have hbehind : line.drop (t.start + 1 + ([] : Text).length) = back := by
    rw [List.length_nil, Nat.add_zero, ← List.drop_drop, hdrop, List.drop_one, List.tail_cons]
  refine ⟨⟨d, hdash, ?_⟩, by simp, ?_⟩
  · rw [hbehind, hdrop, List.nil_append]
  · rw [hbehind]
    exact Lexeme.head?_behind_dash hdash hraw

end Token

namespace Completion

variable {line name : Text} {cursor : Nat} {front back : List Token} {t : Token}
  {before after : List Element} {e : Element}

theorem ofText_rename {length : Nat} (htokens : Token.ofText line = front ++ t :: back)
    (hkept : (line.drop t.start).head? = some '-' ∨ Sealed (line.take t.start))
    (hbehind : (line.drop (t.start + length)).head?.any isParameterChar = false)
    (hname : isParameterName name = true) :
    ∃ t' back', Token.ofText (accept line t.start length ('-' :: name)) = front ++ t' :: back' ∧
      t'.kind = .parameter ∧ t'.start = t.start ∧ t'.value = name := by
  have hline : accept line t.start length ('-' :: name) =
      line.take t.start ++ '-' :: (name ++ line.drop (t.start + length)) := by
    rw [accept, List.append_assoc, List.cons_append]
  have hscan : Lexeme.scan '-' (name ++ line.drop (t.start + length)) =
      Lexeme.parameter '-' (name ++ line.drop (t.start + length)) :=
    Lexeme.scan_of_isDash isDash_hyphen (startsParameter_of_isParameterName hname)
  have hrun := run_name (isParameterChar_of_mem hname) _ hbehind
  rw [hline, ofText_replace htokens hkept, Lexeme.scanAll_cons rfl rfl, List.map_cons, hscan]
  exact ⟨_, _, rfl, Lexeme.parameter_kind .., rfl, (Lexeme.parameter_value ..).trans hrun.1⟩

theorem dashAsParameter_start {ts : List Token} (h : e ∈ Element.ofTokens ts) :
    (dashAsParameter cursor e).start = e.start := by
  obtain ⟨t, ht, hstart⟩ := Element.ofTokens_first h
  revert ht hstart
  fun_cases dashAsParameter cursor e with
  | case1 t start stop c htext hc =>
    rintro ⟨⟩ hstart
    exact hstart.symm
  | _ => exact fun _ _ => rfl

theorem elementsAt_parameter (h : elementsAt line cursor = before ++ e :: after)
    (hp : e.isParameter = true) (hc : e.contains cursor = true) :
    ∃ front typed behind, Element.ofTokens (Statement.at? (Token.scan line) cursor) =
        front ++ typed :: behind ∧ before = front.map (dashAsParameter cursor) ∧
      e = dashAsParameter cursor typed := by
  by_cases hany : (Element.ofTokens (Statement.at? (Token.scan line) cursor)).any
      (·.contains cursor) = true
  · rw [elementsAt, withCursorElement, if_pos hany] at h
    obtain ⟨front, back, hall, rfl, hback⟩ := List.map_eq_append_iff.mp h
    obtain ⟨typed, behind, rfl, rfl, -⟩ := List.map_eq_cons_iff.mp hback
    exact ⟨front, typed, behind, hall, rfl, rfl⟩
  · exfalso
    have hmem : e ∈ elementsAt line cursor := by simp [h]
    rw [elementsAt, withCursorElement, if_neg hany] at hmem
    obtain ⟨x, hx, rfl⟩ := List.mem_map.mp hmem
    have hnot (hx : x ∈ Element.ofTokens (Statement.at? (Token.scan line) cursor)) : False := by
      refine hany (List.any_eq_true.mpr ⟨x, hx, ?_⟩)
      rw [Element.contains_iff, dashAsParameter_start hx, dashAsParameter_stop] at hc
      exact Element.contains_iff.mpr hc
    rcases List.mem_append.mp hx with hx | hx
    · rcases List.mem_append.mp hx with hx | hx
      · exact hnot (List.mem_filter.mp hx).1
      · obtain rfl := List.mem_singleton.mp hx
        cases hp
    · exact hnot (List.mem_filter.mp hx).1

/-- The name of such a parameter, which may be no name yet, stands behind its dash. -/
theorem nameAt_of_isParameter {ts : List Token} (h : e ∈ Element.ofTokens ts)
    (hparts : e.parts.head? = some t) (ht : t ∈ Token.ofText line)
    (hp : (dashAsParameter cursor e).isParameter = true) :
    Token.NameAt line t.start (dashAsParameter cursor e).text ∧
      (cursor ≤ nameEnd (dashAsParameter cursor e) → cursor ≤ t.stop) := by
  have hstop : t.stop = t.start + t.text.length := rfl
  revert hparts hp
  fun_cases dashAsParameter cursor e with
  | case1 u start stop c htext hc =>
    rintro ⟨⟩ -
    simp only [nameEnd, Element.text_parameter, Element.start, List.length_nil, Nat.add_zero]
    rw [hstop, htext]
    exact ⟨Token.nameAt_of_dash ht htext (Bool.and_eq_true_iff.mp hc).1, id⟩
  | case2 | case3 => rintro - ⟨⟩
  | case4 =>
    intro hparts hp
    cases e with
    | value => cases hp
    | parameter u stop =>
      obtain rfl := Option.some.inj hparts
      have hkind : u.kind = .parameter := by
        have hkind := ((Element.parts_of_mem h).2 u (List.mem_singleton_self u)).2
        rwa [if_pos hp] at hkind
      have hlt := ((Token.laid_scanAll line).within u ht).name_lt hkind
      simp only [nameEnd, Element.text_parameter, Element.start]
      exact ⟨Token.nameAt_of_parameter ht hkind, fun hcursor => by omega⟩

theorem mem_ofText_of_part {caret : Int}
    (h : e ∈ Element.ofTokens (Statement.at? (Token.scan line) caret)) (ht : t ∈ e.parts) :
    t ∈ Token.ofText line ∧ t.IsOperand := by
  obtain ⟨hmem, hkind⟩ := (Element.parts_of_mem h).2 t ht
  have hoperand : t.IsOperand := by
    split at hkind
    · simp [Token.IsOperand, hkind]
    · exact Element.isOperand_of_continuesList hkind
  have hscan : t ∈ Token.ofText line ++ [Token.finish line.length] :=
    (Statement.at?_sublist _ _).subset hmem
  refine ⟨(List.mem_append.mp hscan).resolve_right fun hfinish => hoperand.2 ?_, hoperand⟩
  rw [List.mem_singleton.mp hfinish]
  rfl

theorem exists_token_of_parameter (h : elementsAt line cursor = before ++ e :: after)
    (hp : e.isParameter = true) (hc : e.contains cursor = true) :
    ∃ front typed behind, Element.ofTokens (Statement.at? (Token.scan line) cursor) =
        front ++ typed :: behind ∧ before = front.map (dashAsParameter cursor) ∧
      ∃ t, t ∈ Token.ofText line ∧ t.IsOperand ∧ typed.start = t.start ∧ e.start = t.start ∧
        Token.NameAt line t.start e.text ∧ (cursor ≤ nameEnd e → cursor ≤ t.stop) := by
  obtain ⟨front, typed, behind, hall, rfl, rfl⟩ := elementsAt_parameter h hp hc
  have hin : typed ∈ Element.ofTokens (Statement.at? (Token.scan line) cursor) := by simp [hall]
  obtain ⟨t, ht, hstart⟩ := Element.ofTokens_first hin
  obtain ⟨htin, hoperand⟩ := mem_ofText_of_part hin (List.mem_of_mem_head? ht)
  exact ⟨front, typed, behind, hall, rfl, t, htin, hoperand, hstart,
    (dashAsParameter_start hin).trans hstart, nameAt_of_isParameter hin ht htin hp⟩

/-- What the elements are once another name has taken the place of a parameter name that the cursor
is on: in front they are those of the line. -/
theorem elements_rename (h : elementsAt line cursor = before ++ e :: after)
    (hp : e.isParameter = true) (hc : e.contains cursor = true) (hcursor : cursor ≤ nameEnd e)
    (hkept : (line.drop e.start).head? = some '-' ∨ Sealed (line.take e.start))
    (hname : isParameterName name = true) :
    ∃ front, before = front.map (dashAsParameter cursor) ∧
      ∀ caret, e.start ≤ caret → caret ≤ e.start + ('-' :: name).length →
        ∃ (t : Token) (rest : List Element), Element.ofTokens (Statement.at? (Token.scan
            (accept line e.start (nameEnd e - e.start) ('-' :: name))) caret) =
          front ++ .parameter t t.stop :: rest ∧ t.start = e.start ∧ t.value = name := by
  obtain ⟨front, typed, behind, hall, rfl, t, htin, hoperand, htyped, hstart, hat, hstop⟩ :=
    exists_token_of_parameter h hp hc
  refine ⟨front, rfl, fun caret hcaret hend => ?_⟩
  have hlength : e.start + (nameEnd e - e.start) = e.start + 1 + e.text.length := by
    have : nameEnd e = e.start + 1 + e.text.length := rfl
    omega
  have hbegins := (Element.contains_iff.mp hc).1
  have hends := hat.ends
  rw [← hstart, ← hlength] at hends
  rw [hstart] at hkept hcaret hend hbegins hends ⊢
  -- the tokens in front of the name make the elements in front of it
  obtain ⟨ts, us, htokens⟩ := List.append_of_mem htin
  obtain ⟨tail, hline⟩ :=
    Statement.at?_scan_around htokens hoperand.isBoundary hbegins (hstop hcursor)
  have hlaid := Statement.laid_at? line cursor
  rw [hline] at hall hlaid
  obtain rfl := Element.ofTokens_before hlaid hoperand hall htyped
  -- in the other line the same tokens stand in front of the name
  obtain ⟨u, back, hnew, hkind, hustart, hvalue⟩ := ofText_rename htokens hkept hends hname
  have hwithin := (Token.laid_scanAll _).within u (hnew ▸ List.mem_append_right _ (by simp))
  have hlt := hwithin.name_lt hkind
  have huend : caret ≤ u.stop := by
    have : u.stop = u.start + u.text.length := rfl
    rw [hvalue] at hlt
    rw [List.length_cons] at hend
    omega
  have huoperand : u.IsOperand := by simp [Token.IsOperand, hkind]
  obtain ⟨more, hother⟩ :=
    Statement.at?_scan_around hnew huoperand.isBoundary (hustart ▸ hcaret) huend
  refine ⟨u, Element.ofTokens more, ?_, hustart, hvalue⟩
  have hlaid' := Statement.laid_at? (accept line t.start (nameEnd e - t.start) ('-' :: name)) caret
  rw [hother] at hlaid' ⊢
  exact Element.ofTokens_before_parameter hlaid' hkind

end Completion

end CommandShell
