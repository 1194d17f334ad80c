import CommandShell.Proofs.Completion.Invocation
import CommandShell.Proofs.Element.Append
import CommandShell.Proofs.Quoting.Inline

/-!
The end of a line: its last statement, the element that a cursor at the end is on, and what both
become when the last value is replaced.
-/

set_option autoImplicit false

namespace CommandShell

theorem Token.Laid.exists_front {n : Nat} {ts : List Token} {t : Token} (h : Laid n ts)
    (ht : t ∈ ts) (hstop : t.stop = n) : ∃ front, ts = front ++ [t] := by
  obtain ⟨front, back, rfl⟩ := List.append_of_mem ht
  cases back with
  | nil => exact ⟨front, rfl⟩
  | cons u back =>
    have hle := (h.sublist (List.sublist_append_right front _)).stop_le (u := u) (by simp)
    have hu := h.within u (by simp)
    have := hu.start_lt
    have := hu.stop_le
    omega

def Token.argumentAt (start : Nat) (v : Text) : Token := ofLexeme (start, Quoting.argument v [])

theorem Token.argumentAt_isArgument (start : Nat) (v : Text) : (argumentAt start v).IsArgument :=
  Quoting.argument_kind v []

theorem Token.argumentAt_value (start : Nat) (v : Text) : (argumentAt start v).value = v :=
  Quoting.argument_value v []

namespace Sealed

theorem ofText_quoteIfNeeded {s : Text} (h : Sealed s) (v : Text) :
    Token.ofText (s ++ Quoting.quoteIfNeeded v) =
      Token.ofText s ++ [Token.argumentAt s.length v] := by
  have hscan := @Quoting.scanAll_quoteIfNeeded s.length v [] rfl
  rw [List.append_nil, Lexeme.scanAll_nil] at hscan
  rw [h.ofText_append, hscan]
  rfl

theorem ofText_eq {s rest : Text} (h : Sealed s) {t : Token} (ht : t ∈ Token.ofText (s ++ rest))
    (hstart : t.start = s.length) (hstop : t.stop = (s ++ rest).length) :
    Token.ofText (s ++ rest) = Token.ofText s ++ [t] := by
  have hlaid : Token.Laid (s ++ rest).length (Token.ofText (s ++ rest)) := Token.laid_scanAll _
  obtain ⟨front, hfront⟩ := hlaid.exists_front ht hstop
  have hlt := (hlaid.within t ht).start_lt
  have hbounds := (Lexeme.scanAll_tiles s.length rest).bounds
  have hall := h.ofText_append rest
  generalize (Lexeme.scanAll s.length rest).map Token.ofLexeme = later at hall hbounds
  rcases List.eq_nil_or_concat later with rfl | ⟨middle, u, rfl⟩
  · rw [hall, List.append_nil] at ht
    have := ((Token.laid_scanAll s).within t ht).stop_le
    omega
  · rw [hall, List.concat_eq_append, ← List.append_assoc] at hfront
    obtain ⟨-, hlast⟩ := List.append_inj' hfront rfl
    obtain rfl := (List.cons.inj hlast).1
    cases middle with
    | nil => exact hall
    | cons v middle =>
      -- there is no room for a token in between
      have hsub : [v, u].Sublist (Token.ofText (s ++ rest)) := by
        rw [hall]
        simp
      have := (hlaid.sublist hsub).stop_le (List.mem_singleton_self u)
      have := hbounds v (by simp)
      omega

end Sealed

namespace Statement

/-- The tokens behind the last boundary. -/
def final (ts : List Token) : List Token := ((segments 0 ts).getLast?.map (·.2)).getD []

theorem segments_append_front {ts us tokens : List Token} {later : List (Nat × List Token)}
    (h : ∀ u ∈ ts, u.kind ≠ .endOfInput)
    (hus : ∀ start, segments start us = (start, tokens) :: later) (start : Nat) :
    ∃ front first last, segments start ts = front ++ [(first, last)] ∧
      segments start (ts ++ us) = front ++ (first, last ++ tokens) :: later := by
  induction ts generalizing start with
  | nil => exact ⟨[], start, [], rfl, hus start⟩
  | cons u ts ih =>
    have hu : (u.kind == .endOfInput) = false := by simpa using h u (by simp)
    have hrest : ∀ v ∈ ts, v.kind ≠ .endOfInput := fun v hv => h v (List.mem_cons_of_mem _ hv)
    simp only [List.cons_append, segments, hu, Bool.false_eq_true, if_false]
    by_cases hb : isBoundary u = true
    · obtain ⟨front, first, last, hts, happend⟩ := ih hrest u.stop
      refine ⟨(start, []) :: front, first, last, ?_, ?_⟩
      · rw [if_pos hb, hts, List.cons_append]
      · rw [if_pos hb, happend, List.cons_append]
    · obtain ⟨front, first, last, hts, happend⟩ := ih hrest start
      simp only [if_neg hb, hts, happend]
      cases front with
      | nil => exact ⟨[], first, u :: last, rfl, rfl⟩
      | cons segment front => exact ⟨(segment.1, u :: segment.2) :: front, first, last, rfl, rfl⟩

theorem segments_append_singleton {ts : List Token} {t : Token}
    (h : ∀ u ∈ ts ++ [t], u.kind ≠ .endOfInput) (start : Nat) :
    ∃ front first tokens, segments start ts = front ++ [(first, tokens)] ∧
      segments start (ts ++ [t]) = front ++ if isBoundary t then [(first, tokens), (t.stop, [])]
        else [(first, tokens ++ [t])] := by
  have hts : ∀ u ∈ ts, u.kind ≠ .endOfInput := fun u hu => h u (List.mem_append_left _ hu)
  have ht : (t.kind == .endOfInput) = false := by simpa using h t (by simp)
  by_cases hb : isBoundary t = true
  · have hown (start : Nat) : segments start [t] = (start, []) :: [(t.stop, [])] := by
      rw [segments, if_neg (by simp [ht]), if_pos hb, segments]
    obtain ⟨front, first, last, hfront, hall⟩ := segments_append_front hts hown start
    exact ⟨front, first, last, hfront, by rw [hall, if_pos hb, List.append_nil]⟩
  · have hown (start : Nat) : segments start [t] = (start, [t]) :: [] := by
      rw [segments, if_neg (by simp [ht]), if_neg hb, segments]
    obtain ⟨front, first, last, hfront, hall⟩ := segments_append_front hts hown start
    exact ⟨front, first, last, hfront, by rw [hall, if_neg hb]⟩

theorem final_append {ts : List Token} {t : Token} (h : ∀ u ∈ ts ++ [t], u.kind ≠ .endOfInput)
    (ht : isBoundary t = false) : final (ts ++ [t]) = final ts ++ [t] := by
  obtain ⟨front, first, tokens, hts, happend⟩ := segments_append_singleton h 0
  rw [final, final, hts, happend, if_neg (by simp [ht]), List.getLast?_concat,
    List.getLast?_concat]
  rfl

theorem final_sublist (ts : List Token) : (final ts).Sublist ts := by
  rw [final]
  cases hs : (segments 0 ts).getLast? with
  | none => exact List.nil_sublist _
  | some segment => exact sublist_of_mem_segments (List.mem_of_getLast? hs)

theorem at?_end (line : Text) : at? (Token.scan line) line.length =
    final (Token.ofText line) := by
  have htiling := tiling_scanAll line
  have hall : ∀ segment ∈ segments 0 (Token.scan line), (segment.1 : Int) ≤ line.length := by
    intro segment hs
    have hfirst := List.mem_map_of_mem (f := fun s : Nat × List Token => s.1) hs
    rw [Token.scan, segments_finish, segments_map_fst htiling.kind_ne] at hfirst
    rcases List.mem_cons.mp hfirst with hzero | hfirst
    · omega
    · obtain ⟨t, ht, hstop⟩ := List.mem_map.mp hfirst
      have := (htiling.bounds t (List.mem_filter.mp ht).1).2
      omega
  rw [at?, List.filter_eq_self.mpr fun segment hs => decide_eq_true (hall segment hs), final,
    Token.scan, segments_finish, Token.ofText]
  cases hs : (segments 0 ((Lexeme.scanAll 0 line).map Token.ofLexeme)).getLast? with
  | some segment => rfl
  | none =>
    have hstarts := segments_map_fst htiling.kind_ne 0
    rw [List.getLast?_eq_none_iff.mp hs] at hstarts
    cases hstarts

end Statement

namespace Completion

theorem dashAsParameter_stop (cursor : Nat) (e : Element) :
    (dashAsParameter cursor e).stop = e.stop := by
  fun_cases dashAsParameter cursor e <;> rfl

/-- The element that a cursor at the end of a line is on: an empty one that is put there, or the
last one, which ends there. -/
theorem elementsAt_end (line : Text) :
    ∃ before e, elementsAt line line.length = before ++ [e] ∧ e.contains line.length = true ∧
      let elements := Element.ofTokens (Statement.at? (Token.scan line) line.length)
      (elements = before ∧ e = .value [] line.length line.length) ∨
        ∃ last, elements = before ++ [last] ∧ last.stop = line.length ∧
          e = dashAsParameter line.length last := by
  have hlaid := Statement.laid_at? line line.length
  have hordered := Element.ofTokens_ordered hlaid
  have hwithin := Element.ofTokens_within hlaid
  have hlt := Element.ofTokens_start_lt hlaid
  generalize hall : Element.ofTokens (Statement.at? (Token.scan line) line.length) = elements at *
  have hsame (es : List Element) (hes : ∀ x ∈ es, x.stop < line.length) :
      es.map (dashAsParameter line.length) = es := by
    refine (List.map_congr_left fun x hx => ?_).trans (List.map_id es)
    exact dashAsParameter_eq fun _ _ _ _ => Nat.ne_of_lt (hes x hx)
  rw [elementsAt, hall]
  by_cases hany : elements.any (·.contains line.length) = true
  · -- of the elements in a line only the last can end where the line does
    obtain ⟨x, hx, hc⟩ := List.any_eq_true.mp hany
    have hxstop := (Element.contains_iff.mp hc).2
    obtain ⟨before, last, rfl⟩ : ∃ before last, elements = before ++ [last] :=
      ⟨_, _, (List.dropLast_concat_getLast (List.ne_nil_of_mem hx)).symm⟩
    obtain ⟨-, -, hapart⟩ := List.pairwise_append.mp hordered
    have hlast := hlt last (by simp)
    have hlaststop := (hwithin last (by simp)).stop_le
    have hbefore : ∀ y ∈ before, y.stop < line.length := by
      intro y hy
      have := hapart y hy last (by simp)
      omega
    have hstop : last.stop = line.length := by
      rcases List.mem_append.mp hx with hx | hx
      · have := hbefore x hx
        omega
      · rw [List.mem_singleton.mp hx] at hxstop
        omega
    refine ⟨before, dashAsParameter line.length last, ?_, ?_, .inr ⟨last, rfl, hstop, rfl⟩⟩
    · rw [withCursorElement, if_pos hany, List.map_append, hsame before hbefore]
      rfl
    · have hdash : (dashAsParameter line.length last).start ≤ _ :=
        (dashAsParameter_within (hwithin last (by simp))).start_le
      have hsame := (dashAsParameter_stop line.length last).trans hstop
      rw [hsame] at hdash
      exact Element.contains_iff.mpr ⟨hdash, Nat.le_of_eq hsame.symm⟩
  · have hbefore : ∀ y ∈ elements, y.stop < line.length := by
      intro y hy
      have hc : ¬ y.contains line.length = true := fun h => hany (List.any_eq_true.mpr ⟨y, hy, h⟩)
      rw [Element.contains_iff] at hc
      have := (hwithin y hy).stop_le
      have := hlt y hy
      omega
    refine ⟨elements, .value [] line.length line.length, ?_, by simp [Element.contains,
      Element.start, Element.stop], .inl ⟨rfl, rfl⟩⟩
    have hfilter : elements.filter (fun e => decide (e.stop < line.length)) = elements :=
      List.filter_eq_self.mpr fun y hy => decide_eq_true (hbefore y hy)
    have hnone : elements.filter (fun e => decide (line.length ≤ e.stop)) = [] :=
      List.filter_eq_nil_iff.mpr fun y hy => by simpa using hbefore y hy
    rw [withCursorElement, if_neg hany, hfilter, hnone, List.append_nil, List.map_append,
      hsame elements hbefore]
    rfl

end Completion

end CommandShell
