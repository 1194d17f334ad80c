import CommandShell.Proofs.Token.Separator

/-!
The two ways to read a text. The lenient one takes every text; the strict one reads the same tokens
or refuses the text at a sign that opens what nothing closes, and there the last token of the
lenient one runs to the end.
-/

set_option autoImplicit false

namespace CommandShell

open Sign

/-- At that place in the text stands what opens something of that kind: a quotation mark, or the
dollar sign of a name in braces. -/
def Unclosed.OpensAt (s : Text) (i : Nat) : Unclosed → Prop
  | .quote => ∃ c, s[i]? = some c ∧ (isSingleQuote c = true ∨ isDoubleQuote c = true)
  | .reference => s[i]? = some '$' ∧ s[i + 1]? = some '{'

namespace Unclosed.OpensAt

variable {s : Text} {i : Nat} {cause : Unclosed}

theorem lt_length (h : cause.OpensAt s i) : i < s.length := by
  cases cause with
  | quote =>
    obtain ⟨c, hc, -⟩ := h
    exact (List.getElem?_eq_some_iff.mp hc).1
  | reference => exact (List.getElem?_eq_some_iff.mp h.1).1

theorem behind (front : Text) (h : cause.OpensAt s i) :
    cause.OpensAt (front ++ s) (front.length + i) := by
  have hskip (j : Nat) : (front ++ s)[front.length + j]? = s[j]? := by
    rw [List.getElem?_append_right (Nat.le_add_right ..), Nat.add_sub_cancel_left]
  cases cause with
  | quote =>
    obtain ⟨c, hc, hquote⟩ := h
    exact ⟨c, (hskip i).trans hc, hquote⟩
  | reference => exact ⟨(hskip i).trans h.1, (hskip (i + 1)).trans h.2⟩

end Unclosed.OpensAt

namespace Quotation

theorem verbatim_rest_of_open {s : Text} (h : (verbatim s).closed = false) :
    (verbatim s).rest = [] := by
  fun_induction verbatim s <;> simp_all [after]

theorem expandable_rest_of_open {s : Text} (h : (expandable s).closed = false) :
    (expandable s).rest = [] := by
  fun_induction expandable s <;> simp_all [after]

end Quotation

namespace Word

def RunsOut (w : Word) : Prop :=
  ∀ i, w.opened = some i → w.rest = [] ∧ Unclosed.quote.OpensAt w.raw i

theorem runsOut_of_closed {w : Word} (h : w.opened = none) : w.RunsOut := by
  intro i hi
  rw [h] at hi
  cases hi

theorem RunsOut.after {w : Word} (h : w.RunsOut) (raw value : Text) (literal : Bool) :
    (w.after raw value literal).RunsOut := by
  intro i hi
  obtain ⟨j, hj, rfl⟩ := Option.map_eq_some_iff.mp hi
  rw [Nat.add_comm]
  exact ⟨(h j hj).1, (h j hj).2.behind raw⟩

theorem runsOut_quote {c : Char} (hc : isSingleQuote c = true ∨ isDoubleQuote c = true)
    (raw value : Text) : RunsOut ⟨c :: raw, value, false, some 0, []⟩ := by
  rintro i ⟨⟩
  exact ⟨rfl, c, rfl, hc⟩

theorem scan_runsOut (previous : Option Char) (s : Text) : (scan previous s).RunsOut := by
  fun_induction scan previous s with
  | case1 | case2 | case4 | case5 => exact runsOut_of_closed rfl
  | case3 _ _ _ _ _ _ ih | case6 _ _ _ _ _ _ _ ih => exact ih.after _ _ _
  | case7 _ _ _ _ _ _ _ _ _ ih | case9 _ _ _ _ _ _ _ _ _ _ ih => exact ih.after _ _ _
  | case11 _ _ _ _ _ _ _ _ ih => exact ih.after _ _ _
  | case8 previous c rest hb ho hc hq q hopen =>
    rw [Quotation.verbatim_rest_of_open (by simpa using hopen)]
    exact runsOut_quote (.inl hq) _ _
  | case10 previous c rest hb ho hc hs hq q hopen =>
    rw [Quotation.expandable_rest_of_open (by simpa using hopen)]
    exact runsOut_quote (.inr hq) _ _

end Word

theorem Reference.scan?_open {s : Text} {r : Reference} (hr : scan? s = some r)
    (h : r.closed = false) : r.rest = [] ∧ r.raw.head? = some '{' := by
  revert hr
  fun_cases scan? s with
  | case1 | case5 => intro hr; cases hr
  | case2 | case4 | case6 =>
    intro hr
    obtain rfl := Option.some.inj hr
    cases h
  | case3 c tail hc =>
    intro hr
    obtain rfl := Option.some.inj hr
    exact ⟨rfl, congrArg some (beq_iff_eq.mp hc)⟩

namespace Lexeme

def RunsOut (l : Lexeme) : Prop :=
  ∀ i cause, l.opened = some (i, cause) → l.rest = [] ∧ cause.OpensAt l.raw i

theorem runsOut_of_closed {l : Lexeme} (h : l.opened = none) : l.RunsOut := by
  intro i cause hi
  rw [h] at hi
  cases hi

theorem quoted_runsOut {c : Char} (hc : isSingleQuote c = true ∨ isDoubleQuote c = true)
    {q : Quotation} (hq : q.closed = false → q.rest = []) (kind : TokenKind) (literal : Bool) :
    (quoted kind c literal q).RunsOut := by
  cases hclosed : q.closed with
  | true => exact runsOut_of_closed (by simp [quoted, hclosed])
  | false =>
    intro i cause hi
    simp only [quoted, hclosed, Bool.false_eq_true, if_false, Option.some.injEq,
      Prod.mk.injEq] at hi
    obtain ⟨rfl, rfl⟩ := hi
    exact ⟨hq hclosed, c, rfl, hc⟩

theorem reference_runsOut {s : Text} {r : Reference} (hr : Reference.scan? s = some r) :
    (reference '$' r).RunsOut := by
  cases hclosed : r.closed with
  | true => exact runsOut_of_closed (by simp [reference, hclosed])
  | false =>
    intro i cause hi
    simp only [reference, hclosed, Bool.false_eq_true, if_false, Option.some.injEq,
      Prod.mk.injEq] at hi
    obtain ⟨rfl, rfl⟩ := hi
    obtain ⟨hrest, hbrace⟩ := Reference.scan?_open hr hclosed
    refine ⟨hrest, rfl, ?_⟩
    rw [← hbrace, List.head?_eq_getElem?]
    rfl

theorem word_runsOut (s : Text) : (word s).RunsOut := by
  intro i cause hi
  obtain ⟨j, hj, he⟩ := Option.map_eq_some_iff.mp hi
  obtain ⟨rfl, rfl⟩ := Prod.mk.inj he
  exact Word.scan_runsOut none s j hj

theorem parameter_runsOut (dash : Char) (s : Text) : (parameter dash s).RunsOut := by
  fun_cases parameter dash s with
  | case1 | case3 => exact runsOut_of_closed rfl
  | case2 name colon more hmore htwo w =>
    intro i cause hi
    obtain ⟨j, hj, he⟩ := Option.map_eq_some_iff.mp hi
    obtain ⟨rfl, rfl⟩ := Prod.mk.inj he
    obtain ⟨hrest, hopens⟩ := Word.scan_runsOut none more j hj
    have hfront := hopens.behind (dash :: name ++ [':'])
    have hlength : (dash :: name ++ [':']).length + j = j + name.length + 2 := by
      simp only [List.cons_append, List.length_cons, List.length_append, List.length_nil]
      omega
    rw [hlength, List.append_assoc] at hfront
    exact ⟨hrest, hfront⟩

theorem scan_runsOut (c : Char) (rest : Text) : (scan c rest).RunsOut := by
  fun_cases scan c rest with
  | case1 => fun_cases operator c rest <;> exact runsOut_of_closed rfl
  | case2 _ hs => exact quoted_runsOut (.inl hs) Quotation.verbatim_rest_of_open _ _
  | case3 _ _ hd => exact quoted_runsOut (.inr hd) Quotation.expandable_rest_of_open _ _
  | case4 _ _ _ hdollar r hr =>
    obtain rfl := beq_iff_eq.mp hdollar
    exact reference_runsOut hr
  | case5 | case7 => exact word_runsOut _
  | case6 => exact parameter_runsOut _ _

/-- At a fault something opens, and the last of the lexemes begins there or before and ends with the
text. -/
def EndsOpen (start : Nat) (s : Text) (ps : List Placed) (f : SyntaxFault) : Prop :=
  (∃ i, f.offset = start + i ∧ f.cause.OpensAt s i) ∧
    ∃ p, ps.getLast? = some p ∧ p.1 ≤ f.offset ∧ p.1 + p.2.raw.length = start + s.length

section

variable {start : Nat} {s : Text} {ps : List Placed} {f : SyntaxFault}

theorem EndsOpen.behind (front : Text) (h : EndsOpen (start + front.length) s ps f) :
    EndsOpen start (front ++ s) ps f := by
  obtain ⟨⟨i, hi, hopens⟩, p, hp, hle, hend⟩ := h
  refine ⟨⟨front.length + i, ?_, hopens.behind front⟩, p, hp, hle, ?_⟩
  · rw [hi, Nat.add_assoc]
  · rw [hend, List.length_append, Nat.add_assoc]

theorem EndsOpen.cons (p : Placed) (h : EndsOpen start s ps f) : EndsOpen start s (p :: ps) f := by
  obtain ⟨hoffset, q, hq, hle, hend⟩ := h
  refine ⟨hoffset, q, ?_, hle, hend⟩
  rw [List.getLast?_cons, hq]
  rfl

theorem EndsOpen.single (start : Nat) {c : Char} {rest : Text} {i : Nat} {cause : Unclosed}
    (h : (scan c rest).opened = some (i, cause)) :
    (scan c rest).rest = [] ∧
      EndsOpen start (c :: rest) [(start, scan c rest)] ⟨cause, start + i⟩ := by
  obtain ⟨hrest, hopens⟩ := scan_runsOut c rest i cause h
  have happend := scan_raw_append_rest c rest
  rw [hrest, List.append_nil] at happend
  rw [happend] at hopens
  exact ⟨hrest, ⟨i, rfl, hopens⟩, (start, scan c rest), rfl, Nat.le_add_right .., by rw [happend]⟩

/-- The first lexeme that leaves something open is the last of all. -/
theorem scanAll_open (h : (scanAll start s).findSome? Token.faultOf? = some f) :
    EndsOpen start s (scanAll start s) f := by
  fun_induction scanAll start s with
  | case1 => cases h
  | case2 start c rest hb ih => exact (ih h).behind [c]
  | case3 start c rest hb hc ih =>
    rw [Nat.add_assoc, Nat.add_comm 1] at ih h ⊢
    have hbehind := EndsOpen.behind (c :: rest.takeWhile (· != '\n')) (ih h)
    rwa [List.cons_append, List.takeWhile_append_dropWhile] at hbehind
  | case4 start c rest hb hc ih =>
    rw [List.findSome?_cons] at h
    cases hopened : (scan c rest).opened with
    | some opened =>
      obtain ⟨hrest, hends⟩ := EndsOpen.single start hopened
      simp only [Token.faultOf?, hopened, Option.map_some, Option.some.injEq] at h
      rw [hrest, scanAll_nil]
      exact h ▸ hends
    | none =>
      simp only [Token.faultOf?, hopened, Option.map_none] at h
      have hbehind := (ih h).behind (scan c rest).raw
      rw [scan_raw_append_rest] at hbehind
      exact hbehind.cons _

end

end Lexeme

namespace Token

theorem fault?_of_refused {s : Text} {f : SyntaxFault} (h : read true s = .error f) :
    fault? s = some f := by
  simp only [read, if_true, scanStrict] at h
  split at h
  · rename_i g hg
    rw [hg, Except.error.inj h]
  · cases h

/-- The lenient reading takes every text. The strict one reads the same tokens or refuses the text
where something opens that nothing closes; the last token then begins there or before and runs to
the end. -/
theorem read_modes (s : Text) : ∃ ts, read false s = .ok (ts ++ [finish s.length]) ∧
    (∀ tokens, read true s = .ok tokens → read false s = .ok tokens) ∧
    ∀ f, read true s = .error f → f.offset < s.length ∧ f.cause.OpensAt s f.offset ∧
      ∃ t, ts.getLast? = some t ∧ t.start ≤ f.offset ∧ t.stop = s.length := by
  refine ⟨ofText s, rfl, fun tokens h => congrArg Except.ok (eq_scan_of_read h).symm, fun f h => ?_⟩
  obtain ⟨⟨i, hi, hopens⟩, p, hp, hle, hend⟩ := Lexeme.scanAll_open (fault?_of_refused h)
  rw [Nat.zero_add] at hi hend
  rw [hi]
  refine ⟨hopens.lt_length, hopens, ofLexeme p, ?_, hi ▸ hle, hend⟩
  rw [ofText, List.getLast?_map, hp, Option.map_some]

theorem read_modes_open_quote :
    read true "a!< -N:b'c'\u201cd`".toList = .error ⟨.quote, 11⟩ ∧
      Unclosed.quote.OpensAt "a!< -N:b'c'\u201cd`".toList 11 ∧
      ∃ ts t, read false "a!< -N:b'c'\u201cd`".toList = .ok (ts ++ [finish 14]) ∧
        ts.getLast? = some t ∧ t.start ≤ 11 ∧ t.stop = 14 := by
  have h : read true "a!< -N:b'c'\u201cd`".toList = .error ⟨.quote, 11⟩ := by
    have hfault : fault? "a!< -N:b'c'\u201cd`".toList = some ⟨.quote, 11⟩ := by decide +kernel
    simp only [read, if_true, scanStrict, hfault]
  obtain ⟨ts, hts, -, hrefused⟩ := read_modes "a!< -N:b'c'\u201cd`".toList
  obtain ⟨-, hopens, t, hlast, hstart, hstop⟩ := hrefused _ h
  exact ⟨h, hopens, ts, t, hts, hlast, hstart, hstop⟩

end Token

end CommandShell
