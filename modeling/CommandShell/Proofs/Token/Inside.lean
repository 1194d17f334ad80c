import CommandShell.Proofs.Token.Locality

/-!
A value that is one token by itself, read inside another token. There everything is a word: quotes
are taken off as they are elsewhere, and a reference keeps its sign.
-/

set_option autoImplicit false

namespace CommandShell

open Sign

namespace Sign

/-- A character that has no meaning of its own inside a word. -/
structure IsOrdinary (c : Char) : Prop where
  blank : isBlank c = false
  line : (c == '\n') = false
  operator : isOperator c = false
  escape : (c == backtick) = false
  single : isSingleQuote c = false
  double : isDoubleQuote c = false

theorem mem_of_isSingleQuote {c : Char} (h : isSingleQuote c = true) :
    c ∈ ['\'', '‘', '’', '‚', '‛'] := by
  simp only [isSingleQuote, Bool.or_eq_true, Bool.and_eq_true, beq_iff_eq, decide_eq_true_eq] at h
  simp only [List.mem_cons, List.not_mem_nil, or_false]
  refine h.imp_right fun ⟨hlow, hhigh⟩ => ?_
  have hn : c.toNat = 0x2018 ∨ c.toNat = 0x2019 ∨ c.toNat = 0x201a ∨ c.toNat = 0x201b := by omega
  simp only [← Char.toNat_inj]
  exact hn

theorem mem_of_isDoubleQuote {c : Char} (h : isDoubleQuote c = true) :
    c ∈ ['"', '“', '”', '„'] := by
  simp only [isDoubleQuote, Bool.or_eq_true, Bool.and_eq_true, beq_iff_eq, decide_eq_true_eq] at h
  simp only [List.mem_cons, List.not_mem_nil, or_false]
  refine h.imp_right fun ⟨hlow, hhigh⟩ => ?_
  have hn : c.toNat = 0x201c ∨ c.toNat = 0x201d ∨ c.toNat = 0x201e := by omega
  simp only [← Char.toNat_inj]
  exact hn

theorem eq_false_of_any {f : Char → Bool} {cs : List Char} (hcs : cs.any f = false) {c : Char}
    (hc : c ∈ cs) : f c = false :=
  Bool.eq_false_iff.mpr (List.any_eq_false.mp hcs c hc)

theorem isOrdinary_of_isReferenceChar {c : Char} (h : isReferenceChar c = true) :
    IsOrdinary c := by
  have hnot {f : Char → Bool} (cs : List Char) (hf : f c = true → c ∈ cs)
      (hcs : cs.any isReferenceChar = false) : f c = false := by
    cases hc : f c with
    | false => rfl
    | true => exact absurd h (Bool.eq_false_iff.mp (eq_false_of_any hcs (hf hc)))
  exact {
    blank := hnot [' ', '\t', '\r'] (by simp [isBlank, or_assoc]) (by decide +kernel)
    line := hnot (f := (· == '\n')) ['\n'] (by simp) (by decide +kernel)
    operator := hnot ";|&,(){}<>\n".toList (by simp [isOperator]) (by decide +kernel)
    escape := hnot (f := (· == backtick)) [backtick] (by simp) (by decide +kernel)
    single := hnot _ mem_of_isSingleQuote (by decide +kernel)
    double := hnot _ mem_of_isDoubleQuote (by decide +kernel) }

end Sign

namespace Word

theorem scan_cons_ordinary {c : Char} (h : IsOrdinary c) (previous : Option Char) (rest : Text) :
    scan previous (c :: rest) = (scan (some c) rest).after [c] [c] (c != '$') := by
  obtain ⟨hb, hl, ho, he, hs, hd⟩ := h
  rw [scan.eq_def]
  simp only [hb, hl, ho, he, hs, hd, Bool.or_self, Bool.false_eq_true, if_false]

theorem scan_ordinary {s : Text} (h : ∀ c ∈ s, IsOrdinary c) (previous : Option Char) :
    scan previous s = ⟨s, s, s.all (· != '$'), none, []⟩ := by
  induction s generalizing previous with
  | nil => exact scan_nil previous
  | cons c rest ih =>
    obtain ⟨hc, hrest⟩ := List.forall_mem_cons.mp h
    rw [scan_cons_ordinary hc, ih hrest]
    rfl

theorem scan_verbatim {c : Char} (h : isSingleQuote c = true) (previous : Option Char) {rest : Text}
    (hclosed : (Quotation.verbatim rest).closed = true) :
    scan previous (c :: rest) = (scan (some c) (Quotation.verbatim rest).rest).after
      (c :: (Quotation.verbatim rest).raw) (Quotation.verbatim rest).value false := by
  have hc := mem_of_isSingleQuote h
  have hb : (isBlank c || c == '\n') = false :=
    eq_false_of_any (f := fun d => isBlank d || d == '\n') (by decide +kernel) hc
  have ho : isOperator c = false := eq_false_of_any (by decide +kernel) hc
  have he : (c == backtick) = false := eq_false_of_any (f := (· == backtick)) (by decide +kernel) hc
  rw [scan.eq_def]
  simp only [hb, ho, he, h, hclosed, Bool.false_eq_true, if_false, if_true]

theorem scan_expandable {c : Char} (h : isDoubleQuote c = true) (previous : Option Char)
    {rest : Text} (hclosed : (Quotation.expandable rest).closed = true) :
    scan previous (c :: rest) = (scan (some c) (Quotation.expandable rest).rest).after
      (c :: (Quotation.expandable rest).raw) (Quotation.expandable rest).value false := by
  have hc := mem_of_isDoubleQuote h
  have hb : (isBlank c || c == '\n') = false :=
    eq_false_of_any (f := fun d => isBlank d || d == '\n') (by decide +kernel) hc
  have ho : isOperator c = false := eq_false_of_any (by decide +kernel) hc
  have he : (c == backtick) = false := eq_false_of_any (f := (· == backtick)) (by decide +kernel) hc
  have hs : isSingleQuote c = false := eq_false_of_any (by decide +kernel) hc
  rw [scan.eq_def]
  simp only [hb, ho, he, hs, h, hclosed, Bool.false_eq_true, if_false, if_true]

end Word

namespace Reference

theorem isOrdinary_of_scan? {s : Text} {r : Reference} (h : scan? s = some r)
    (hraw : r.raw = r.name) : ∀ c ∈ r.name, IsOrdinary c := by
  have hlength := congrArg List.length hraw
  revert h hlength
  fun_cases scan? s with
  | case1 | case5 => intro h; cases h
  | case2 | case3 =>
    intro h
    obtain rfl := Option.some.inj h
    simp only [List.length_append, List.length_cons]
    omega
  | case4 c rest _ hsign =>
    intro h _ d hd
    obtain rfl := Option.some.inj h
    rw [show d = c from List.mem_singleton.mp hd]
    have hsign : c = '$' ∨ c = '?' ∨ c = '^' := by simpa [or_assoc] using hsign
    rcases hsign with rfl | rfl | rfl <;> exact ⟨rfl, rfl, rfl, rfl, rfl, rfl⟩
  | case6 c rest _ _ name =>
    intro h _ d hd
    obtain rfl := Option.some.inj h
    exact isOrdinary_of_isReferenceChar (List.all_eq_true.mp List.all_takeWhile d hd)

end Reference

/-- A value that is one token, with nothing left open and nothing behind it. -/
structure Lexeme.Alone (l : Lexeme) : Prop where
  operator : l.kind ≠ .operator
  parameter : l.kind ≠ .parameter
  opened : l.opened = none
  rest : l.rest = []

namespace Lexeme

variable {c : Char} {rest : Text}

theorem Alone.scan_word (h : (scan c rest).Alone) (hk : (scan c rest).kind ≠ .reference) :
    let w := Word.scan none (c :: rest)
    w.value = (scan c rest).value ∧ w.opened = none ∧ w.rest = [] := by
  obtain ⟨hoperator, hparameter, hopened, hrest⟩ := h
  revert hoperator hparameter hopened hrest hk
  fun_cases scan c rest with
  | case1 =>
    intro _ h
    exact absurd (operator_kind c rest) h
  | case2 _ hquote =>
    intro _ _ _ hopened hrest
    have hclosed : (Quotation.verbatim rest).closed = true := by
      cases hc : (Quotation.verbatim rest).closed with
      | true => rfl
      | false => simp [quoted, hc] at hopened
    have hend : (Quotation.verbatim rest).rest = [] := hrest
    simp [Word.scan_verbatim hquote none hclosed, hend, Word.scan_nil, Word.after, Word.nothing,
      quoted]
  | case3 _ _ hquote =>
    intro _ _ _ hopened hrest
    have hclosed : (Quotation.expandable rest).closed = true := by
      cases hc : (Quotation.expandable rest).closed with
      | true => rfl
      | false => simp [quoted, hc] at hopened
    have hend : (Quotation.expandable rest).rest = [] := hrest
    simp [Word.scan_expandable hquote none hclosed, hend, Word.scan_nil, Word.after, Word.nothing,
      quoted]
  | case4 => exact fun h => absurd rfl h
  | case6 =>
    intro _ _ h
    exact absurd (parameter_kind c rest) h
  | case5 | case7 =>
    intro _ _ _ hopened hrest
    exact ⟨rfl, Option.map_eq_none_iff.mp hopened, hrest⟩

theorem Alone.scan_word_reference (h : (scan c rest).Alone)
    (hk : (scan c rest).kind = .reference)
    (hraw : (scan c rest).raw = '$' :: (scan c rest).value) :
    let w := Word.scan none (c :: rest)
    w.value = '$' :: (scan c rest).value ∧ w.opened = none ∧ w.rest = [] := by
  have hsplit := scan_raw_append_rest c rest
  rw [h.rest, List.append_nil, hraw] at hsplit
  have hword := word_kind (c :: rest)
  revert hk hraw hsplit
  fun_cases scan c rest with
  | case1 => simp [operator_kind]
  | case2 | case3 => simp [quoted]
  | case6 => simp [parameter_kind]
  | case5 | case7 => rcases hword with h | h <;> simp [h]
  | case4 _ _ _ _ r hr =>
    intro _ hraw hsplit
    have hname : r.raw = r.name := (List.cons.inj hraw).2
    have hall : ∀ d ∈ '$' :: r.name, IsOrdinary d :=
      List.forall_mem_cons.mpr ⟨⟨rfl, rfl, rfl, rfl, rfl, rfl⟩,
        Reference.isOrdinary_of_scan? hr hname⟩
    rw [← hsplit]
    simp only [reference, Word.scan_ordinary hall, and_self]

/-- A word that begins with a colon is a word behind one colon more. -/
theorem Alone.behind_colon (h : (scan ':' rest).Alone) : (scan ':' (':' :: rest)).Alone := by
  have hcolon : IsOrdinary ':' := ⟨rfl, rfl, rfl, rfl, rfl, rfl⟩
  have hword (s : Text) : scan ':' s = word (':' :: s) := rfl
  have hscan : Word.scan none (':' :: ':' :: rest) =
      (Word.scan none (':' :: rest)).after [':'] [':'] true := by
    rw [Word.scan_cons_ordinary hcolon none, Word.scan_cons_ordinary hcolon (some ':'),
      Word.scan_cons_ordinary hcolon none]
    rfl
  rw [hword] at h ⊢
  have hkind := word_kind (':' :: ':' :: rest)
  refine ⟨?_, ?_, ?_, ?_⟩
  · rcases hkind with hk | hk <;> simp [hk]
  · rcases hkind with hk | hk <;> simp [hk]
  · have hopened : (Word.scan none (':' :: rest)).opened = none :=
      Option.map_eq_none_iff.mp h.opened
    simp only [word, hscan, Word.after, hopened, Option.map_none]
  · have hrest : (Word.scan none (':' :: rest)).rest = [] := h.rest
    simp only [word, hscan, Word.after, hrest]

end Lexeme

end CommandShell
