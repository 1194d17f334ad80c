import CommandShell.Proofs.Completion.Acceptance
import CommandShell.Proofs.Owner.Merge

/-!
A parameter and a word that touches it, at the end of a line: the two tokens that they are, and what
becomes of them when the full spelling of a member takes their place.
-/

set_option autoImplicit false

namespace CommandShell

namespace Sealed

/-- Sealed text is read by itself, so what is read in front of a token behind it is all of its
tokens. -/
theorem ofText_front {s rest : Text} (h : Sealed s) {front more : List Token} {t : Token}
    (hall : Token.ofText (s ++ rest) = front ++ t :: more) (ht : t.start = s.length) :
    Token.ofText s = front := by
  have hlaid : Token.Laid (s ++ rest).length (front ++ t :: more) := hall ▸ Token.laid_scanAll _
  have hbehind := (Lexeme.scanAll_tiles s.length rest).bounds
  rw [h.ofText_append] at hall
  generalize (Lexeme.scanAll s.length rest).map Token.ofLexeme = behind at hall hbehind
  -- on both sides the tokens of the text are those that begin in it
  have hsplit := congrArg (List.filter fun u => decide (u.start < s.length)) hall
  rw [List.filter_append, List.filter_append, List.filter_eq_self.mpr,
    List.filter_eq_nil_iff.mpr, List.append_nil, List.filter_eq_self.mpr,
    List.filter_eq_nil_iff.mpr, List.append_nil] at hsplit
  · exact hsplit
  · intro u hu
    rcases List.mem_cons.mp hu with rfl | hu
    · simp [ht]
    · have hle := (hlaid.sublist (List.sublist_append_right front _)).stop_le hu
      have hlt := (hlaid.within t (by simp)).start_lt
      simp only [decide_eq_true_eq]
      omega
  · intro u hu
    have hle := (List.pairwise_append.mp hlaid.ordered).2.2 u hu t (by simp)
    have hlt := (hlaid.within u (by simp [hu])).start_lt
    exact decide_eq_true (by omega)
  · intro u hu
    have := (hbehind u hu).1
    simp only [decide_eq_true_eq]
    omega
  · intro u hu
    have hwithin := (Token.laid_scanAll s).within u hu
    have := hwithin.start_lt
    have := hwithin.stop_le
    exact decide_eq_true (by omega)

end Sealed

theorem Token.Laid.front {n : Nat} {ts : List Token} {t : Token} (h : Laid n (ts ++ [t])) :
    Laid t.start ts := by
  have hsub := h.sublist (List.sublist_append_left ts [t])
  refine ⟨fun u hu => ⟨(hsub.within u hu).start_lt, ?_, (hsub.within u hu).name_lt⟩, hsub.ordered⟩
  exact (List.pairwise_append.mp h.ordered).2.2 u hu t (List.mem_singleton_self t)

namespace Completion

open Owner Lexeme

variable {σ : Type} {line : Text} {front : List Token} {t u : Token} {before : List Element}
  {previous e : Element} {length : Nat}

theorem lastElements_pair {text : Text} (h : Token.ofText text = front ++ [t, u])
    (ht : t.kind = .parameter) (hu : Element.continuesList u = true) :
    lastElements text = Element.ofTokens (Statement.final front) ++
      [.parameter t t.stop, .value [u] u.start u.stop] := by
  have hassoc : front ++ [t, u] = front ++ [t] ++ [u] := by simp
  have hlaid : Token.Laid text.length (front ++ [t] ++ [u]) :=
    hassoc ▸ h ▸ Token.laid_scanAll text
  have hkinds : ∀ v ∈ front ++ [t] ++ [u], v.kind ≠ .endOfInput := fun v hv =>
    Token.kind_ne_of_mem_ofText (h ▸ hassoc ▸ hv)
  have hfinal : Statement.final (front ++ [t]) = Statement.final front ++ [t] :=
    Statement.final_append (fun v hv => hkinds v (List.mem_append_left _ hv))
      (by simp [Statement.isBoundary, ht])
  have helements := Element.ofTokens_append_parameter (Statement.final front) ht
  rw [lastElements_append (h.trans hassoc) (Element.continuesList_iff.mp hu).2.1, hfinal,
    Element.append_closed (n := text.length) ?_ hu ?_, helements, List.append_assoc]
  · rfl
  · rw [← hfinal]
    exact (hlaid.sublist (List.sublist_append_left _ [u])).sublist (Statement.final_sublist _)
  · rw [helements, List.getLast?_concat]
    rintro _ ⟨⟩ v ⟨⟩
    rfl

structure Adjoins (line : Text) (front : List Token) (t u : Token) (previous e : Element) :
    Prop where
  tokens : Token.ofText line = front ++ [t, u]
  kind : t.kind = .parameter
  name : previous = .parameter t t.stop
  word : e.parts.head? = some u
  touches : t.stop = u.start
  ends : u.stop = line.length

theorem exists_pair (hlast : lastElements line = before ++ [previous, e])
    (hp : previous.isParameter = true) (he : e.isParameter = false)
    (htouch : previous.stop = e.start) (hm : memberName? e = some length)
    (hend : line.length ≤ e.start + length) :
    ∃ front t u, Adjoins line front t u previous e ∧
      Element.ofTokens (Statement.final front) = before := by
  have hlaid : Token.Laid line.length (Token.ofText line) := Token.laid_scanAll line
  have helements := hlast
  rw [lastElements_eq] at helements
  have hine : e ∈ Element.ofTokens (Statement.final (Token.ofText line)) := by simp [helements]
  -- the word is one token, which ends where the line does
  obtain ⟨u, hu, hlength⟩ := exists_first_of_memberName? hm
  obtain ⟨u', hu', hstart⟩ := Element.ofTokens_first hine
  obtain rfl : u' = u := Option.some.inj (hu'.symm.trans hu)
  obtain ⟨hufinal, hcontinues⟩ := (Element.parts_of_mem hine).2 u' (List.mem_of_mem_head? hu)
  rw [if_neg (by simp [he])] at hcontinues
  have huin := (Statement.final_sublist _).subset hufinal
  have hustop : u'.stop = line.length := by
    have := (hlaid.within u' huin).stop_le
    have : u'.stop = u'.start + u'.text.length := rfl
    omega
  obtain ⟨all, hall⟩ := hlaid.exists_front huin hustop
  rw [hall] at hlaid
  -- the parameter is the token that ends where the word begins
  have hinp : previous ∈ Element.ofTokens (Statement.final (Token.ofText line)) := by
    simp [helements]
  cases previous with
  | value => cases hp
  | parameter t stop =>
    have htstop : t.stop = stop := Element.closed_of_isParameter hinp hp t rfl
    obtain ⟨htfinal, htkind⟩ := (Element.parts_of_mem hinp).2 t (List.mem_singleton_self t)
    rw [if_pos hp] at htkind
    have htu : t.stop = u'.start := htstop.trans (htouch.trans hstart)
    have htall : t ∈ all := by
      have htin := (Statement.final_sublist _).subset htfinal
      rw [hall, List.mem_append, List.mem_singleton] at htin
      refine htin.resolve_right ?_
      rintro rfl
      have := (hlaid.within t (by simp)).start_lt
      omega
    obtain ⟨front, rfl⟩ := hlaid.front.exists_front htall htu
    have hpair : Token.ofText line = front ++ [t, u'] := by rw [hall, List.append_assoc]; rfl
    rw [lastElements_pair hpair htkind hcontinues] at hlast
    exact ⟨front, t, u', ⟨hpair, htkind, by rw [htstop], hu, htu, hustop⟩,
      (List.append_inj' hlast rfl).1⟩

theorem exists_pair_of_touching (helements : elementsAt line line.length = before ++ [previous, e])
    (htouching : touchingName? previous e = some length) (hend : line.length ≤ e.start + length) :
    ∃ front t u, Adjoins line front t u previous e ∧
      Element.ofTokens (Statement.final front) = before := by
  obtain ⟨htouch, hname⟩ := Option.ite_none_right_eq_some.mp htouching
  simp only [Bool.and_eq_true, Bool.not_eq_true', beq_iff_eq] at htouch
  obtain ⟨⟨⟨hvalue, hparameter⟩, hstop⟩, -⟩ := htouch
  have hlast : lastElements line = before ++ [previous, e] := by
    obtain ⟨first, hfirst, -⟩ := exists_first_of_memberName? hname
    rw [List.append_cons] at helements ⊢
    rcases lastElements_cases helements (by simp [hvalue]) with ⟨-, rfl⟩ | ⟨h, -⟩
    · cases hfirst
    · exact h
  exact exists_pair hlast hparameter hvalue hstop hname hend

/-- What is in front of a dash is read the same when something else with a dash takes its place and
that of all behind it. -/
theorem ofText_replace {back : List Token} (htokens : Token.ofText line = front ++ t :: back)
    (hkept : (line.drop t.start).head? = some '-' ∨ Sealed (line.take t.start))
    (insertion : Text) :
    Token.ofText (line.take t.start ++ '-' :: insertion) =
      front ++ (scanAll t.start ('-' :: insertion)).map Token.ofLexeme := by
  have hlength : (line.take t.start).length = t.start := by
    have hwithin := (Token.laid_scanAll line).within t (by
      show t ∈ Token.ofText line
      simp [htokens])
    have := hwithin.start_lt
    have := hwithin.stop_le
    rw [List.length_take]
    omega
  rcases hkept with hdash | hsealed
  · obtain ⟨ps, qs, hscan, rfl, hqs⟩ := List.map_eq_append_iff.mp htokens
    obtain ⟨q, more, rfl, rfl, -⟩ := List.map_eq_cons_iff.mp hqs
    obtain ⟨text, c, back, rfl, rfl, -, -, hall⟩ := scanAll_replace hscan
    simp only [Token.ofLexeme, Nat.zero_add] at hdash hall ⊢
    rw [List.drop_left] at hdash
    obtain rfl : c = '-' := Option.some.inj hdash
    have halike : Alike ('-' :: back) ('-' :: insertion) :=
      ⟨rfl, by rintro _ ⟨⟩ (h | h | h) <;> cases h⟩
    have htokens := congrArg (List.map Token.ofLexeme) (hall _ halike)
    rw [List.map_append, List.map_map, List.map_map, List.map_map] at htokens
    rw [List.take_left]
    exact htokens
  · have hline : Token.ofText (line.take t.start ++ line.drop t.start) = front ++ t :: back := by
      rw [List.take_append_drop, htokens]
    rw [hsealed.ofText_append, hsealed.ofText_front hline hlength.symm, hlength]

variable {o sep name : Text}

theorem lastElements_replace_pair (htokens : Token.ofText line = front ++ [t, u])
    (hkept : (line.drop t.start).head? = some '-' ∨ Sealed (line.take t.start))
    (ho : isPath o = true) (hsep : sep ∈ separators) (hname : isName name = true) :
    ∃ parameter adjacent : Element,
      lastElements (line.take t.start ++ '-' :: (o ++ (sep ++ name))) =
        Element.ofTokens (Statement.final front) ++ [parameter, adjacent] ∧
      Touches parameter adjacent (o ++ (sep ++ name)) ∧ parameter.text = lead o := by
  have hscan := scan_member ho hsep name []
  have hword : Word.scan none [] = .nothing [] := Word.scan_nil none
  obtain ⟨l, hall, hkind, hraw, -, -⟩ := scanAll_touching ho hsep hname
    (t.start + (ofName '-' (lead o) (touching o sep name ++ [])).raw.length) []
  have htouches := touches_of_lexemes (touching o sep name ++ []) t.start _ hkind hraw
  rw [hword] at hall htouches
  simp only [Word.nothing, scanAll_nil, List.append_nil] at hscan hall htouches
  have htext := ofText_replace htokens hkept (o ++ (sep ++ name))
  rw [scanAll_cons rfl rfl, hscan] at htext
  have hrest : (ofName '-' (lead o) (touching o sep name)).rest = touching o sep name := rfl
  rw [hrest, hall] at htext
  generalize hstart : t.start + (ofName '-' (lead o) (touching o sep name)).raw.length = start
    at htext htouches
  have hargument : (Token.ofLexeme (start, l)).IsArgument := hkind.imp_right .inl
  rw [Element.ofToken_argument hargument] at htouches
  refine ⟨_, _, ?_, htouches, Element.ofToken_text _⟩
  exact lastElements_pair htext rfl
    (Element.continuesList_iff.mpr ⟨hargument.kind_ne.1, hargument.isOperand⟩)

end Completion

end CommandShell
