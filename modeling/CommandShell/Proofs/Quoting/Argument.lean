import CommandShell.Proofs.Token.Tiling
import CommandShell.Proofs.Token.Word
import CommandShell.Quoting

/-!
A text that is quoted if need be is read back as one literal token with that text as its value.
The trial that decides about quotes stands at the end of a line; here whatever a blank or a line
end separates may follow.
-/

set_option autoImplicit false

namespace CommandShell

open Sign

namespace Lexeme

def ofPlain (v tail : Text) : Lexeme :=
  ⟨if isNumber v then .number else .bare, v, v, none, true, none, tail⟩

def ofQuoted (v tail : Text) : Lexeme := ⟨.verbatim, Quoting.quote v, v, none, true, none, tail⟩

def isPlain (l : Lexeme) : Bool := (l.kind == .bare || l.kind == .number) && l.literal

theorem operator_isPlain (c : Char) (rest : Text) : (operator c rest).isPlain = false := by
  simp [isPlain, operator_kind]

theorem parameter_isPlain (dash : Char) (s : Text) : (parameter dash s).isPlain = false := by
  simp [isPlain, parameter_kind]

theorem word_isPlain_dollar (rest : Text) : (word ('$' :: rest)).isPlain = false := by
  have h : (Word.scan none ('$' :: rest)).literal = false := by
    rw [Word.scan.eq_def]
    rfl
  simp [isPlain, word, h]

theorem scan_eq_word_of_isPlain {c : Char} {rest : Text} (h : (scan c rest).isPlain = true) :
    scan c rest = word (c :: rest) ∧ isOperator c = false ∧ isSingleQuote c = false ∧
      isDoubleQuote c = false ∧ (c == '$') = false ∧
      (isDash c && rest.head?.any startsParameter) = false := by
  revert h
  fun_cases scan c rest with
  | case1 => simp [operator_isPlain]
  | case2 | case3 => simp [isPlain, quoted]
  | case4 => simp [isPlain, reference]
  | case5 _ _ _ hd =>
    obtain rfl : c = '$' := by simpa using hd
    simp [word_isPlain_dollar]
  | case6 => simp [parameter_isPlain]
  | case7 ho hs hd hr hp =>
    intro _
    exact ⟨rfl, by simpa using ho, by simpa using hs, by simpa using hd, by simpa using hr,
      by simpa using hp⟩

theorem literal_of_word_isPlain {s : Text} (h : (word s).isPlain = true) :
    (Word.scan none s).literal = true := by
  simp only [isPlain, word, Bool.and_eq_true] at h
  exact h.2.1

theorem value_eq_raw_of_isPlain {c : Char} {rest : Text} (h : (scan c rest).isPlain = true) :
    (scan c rest).value = (scan c rest).raw := by
  have hw := (scan_eq_word_of_isPlain h).1
  rw [hw] at h ⊢
  exact (Word.eq_raw_of_literal none _ (literal_of_word_isPlain h)).1

theorem word_append {s tail : Text} (hs : s ≠ []) (h : (word s).isPlain = true)
    (hr : (word s).rest = []) (ht : endsWord tail = true) : word (s ++ tail) = ofPlain s tail := by
  have hl := literal_of_word_isPlain h
  have hraw : (Word.scan none s).raw = s := by
    have := Word.scan_raw_append_rest none s
    rwa [show (Word.scan none s).rest = [] from hr, List.append_nil] at this
  obtain ⟨hvalue, hopened⟩ := Word.eq_raw_of_literal none s hl
  have hhead : ((s ++ tail).head? != some '@') = true := by
    obtain ⟨c, rest, rfl⟩ := List.exists_cons_of_ne_nil hs
    simp only [isPlain, word, Bool.and_eq_true] at h
    exact h.2.2
  simp only [word, ofPlain, Word.scan_append none s hl hr ht, hl, hhead, hvalue, hraw,
    hopened, Bool.and_self, Bool.true_and, Option.map_none]

theorem any_head?_of_endsWord {f : Char → Bool} (hf : [' ', '\t', '\r', '\n'].any f = false)
    {tail : Text} (h : endsWord tail = true) : tail.head?.any f = false := by
  cases tail with
  | nil => rfl
  | cons c rest =>
    have hc : c ∈ [' ', '\t', '\r', '\n'] := by
      simp only [endsWord, isBlank, Bool.or_eq_true, beq_iff_eq] at h
      simpa [or_assoc] using h
    simpa using List.any_eq_false.mp hf c hc

theorem scan_append {c : Char} {rest tail : Text} (h : (scan c rest).isPlain = true)
    (hr : (scan c rest).rest = []) (ht : endsWord tail = true) :
    scan c (rest ++ tail) = ofPlain (c :: rest) tail := by
  obtain ⟨hw, ho, hs, hd, hdollar, hdash⟩ := scan_eq_word_of_isPlain h
  have hdash' : (isDash c && (rest ++ tail).head?.any startsParameter) = false := by
    cases rest with
    | nil => rw [List.nil_append, any_head?_of_endsWord (by decide +kernel) ht, Bool.and_false]
    | cons d rest => exact hdash
  rw [hw] at h hr
  rw [← word_append (List.cons_ne_nil c rest) h hr ht, List.cons_append, scan]
  simp only [ho, hs, hd, hdollar, hdash', Bool.false_eq_true, if_false]

theorem scanAll_cons {start : Nat} {c : Char} {rest : Text} (hb : isBlank c = false)
    (hc : (c == '#') = false) :
    scanAll start (c :: rest) =
      (start, scan c rest) :: scanAll (start + (scan c rest).raw.length) (scan c rest).rest := by
  rw [scanAll.eq_def]
  simp only [hb, hc, Bool.false_eq_true, dite_false, if_false]

theorem scanAll_blank {start : Nat} {c : Char} {rest : Text} (hb : isBlank c = true) :
    scanAll start (c :: rest) = scanAll (start + 1) rest := by
  rw [scanAll.eq_def]
  simp only [hb, dite_true]

theorem scanAll_comment {start : Nat} {c : Char} {rest : Text} (hc : (c == '#') = true) :
    scanAll start (c :: rest) =
      scanAll (start + 1 + (rest.takeWhile (· != '\n')).length) (rest.dropWhile (· != '\n')) := by
  obtain rfl : c = '#' := by simpa using hc
  rw [scanAll.eq_def]
  simp only [show isBlank '#' = false from rfl, Bool.false_eq_true, dite_false, hc, if_true]

theorem scanAll_nil (start : Nat) : scanAll start [] = [] := by
  rw [scanAll.eq_def]

theorem raw_length_le {start : Nat} {s : Text} {p : Placed} (h : p ∈ scanAll start s) :
    p.2.raw.length ≤ s.length := by
  have hb := (scanAll_tiles start s).bounds _ (List.mem_map_of_mem h)
  have hs : (Token.ofLexeme p).stop = (Token.ofLexeme p).start + p.2.raw.length := rfl
  omega

/-- A lexeme that is the whole of a text stands at its start: blanks or a comment in front would
leave too little for it. -/
theorem eq_scan_of_raw {start : Nat} {s : Text} {p : Placed} (h : scanAll start s = [p])
    (hraw : p.2.raw = s) : ∃ c rest, s = c :: rest ∧ isBlank c = false ∧ (c == '#') = false ∧
      p = (start, scan c rest) ∧ (scan c rest).rest = [] := by
  have hfull {start : Nat} {t : Text} (ht : scanAll start t = [p]) : s.length ≤ t.length := by
    rw [← hraw]
    exact raw_length_le (ht ▸ List.mem_singleton_self p)
  cases s with
  | nil => simp [scanAll_nil] at h
  | cons c rest =>
    by_cases hb : isBlank c = true
    · rw [scanAll_blank hb] at h
      exact absurd (hfull h) (by simp)
    · by_cases hc : (c == '#') = true
      · rw [scanAll_comment hc] at h
        have hle := hfull h
        have := (List.dropWhile_suffix (· != '\n') (l := rest)).length_le
        simp only [List.length_cons] at hle; omega
      · rw [Bool.not_eq_true] at hb hc
        rw [scanAll_cons hb hc] at h
        obtain ⟨rfl, -⟩ := List.cons.inj h
        have hsplit := scan_raw_append_rest c rest
        rw [show (scan c rest).raw = c :: rest from hraw] at hsplit
        exact ⟨c, rest, rfl, hb, hc, rfl, by simpa using hsplit⟩

end Lexeme

namespace Quotation

theorem verbatim_cons {c : Char} (h : isSingleQuote c = false) (s : Text) :
    verbatim (c :: s) = (verbatim s).after [c] [c] := by
  cases s with
  | nil => simp [verbatim, h, after]
  | cons d s => simp [verbatim, h]

theorem verbatim_double {c d : Char} (hc : isSingleQuote c = true) (hd : isSingleQuote d = true)
    (s : Text) : verbatim (c :: d :: s) = (verbatim s).after [c, d] [c] := by
  simp [verbatim, hc, hd]

theorem verbatim_close {c : Char} (hc : isSingleQuote c = true) {s : Text}
    (hs : s.head?.any isSingleQuote = false) : verbatim (c :: s) = ⟨[c], [], true, s⟩ := by
  cases s with
  | nil => simp [verbatim, hc]
  | cons d s =>
    have hd : isSingleQuote d = false := hs
    simp [verbatim, hc, hd]

end Quotation

namespace Quoting

def doubled (c : Char) : Text := if isSingleQuote c then [c, c] else [c]

theorem verbatim_doubled (v : Text) {tail : Text} (ht : tail.head?.any isSingleQuote = false) :
    Quotation.verbatim (v.flatMap doubled ++ '\'' :: tail) =
      ⟨v.flatMap doubled ++ ['\''], v, true, tail⟩ := by
  induction v with
  | nil => exact Quotation.verbatim_close rfl ht
  | cons c v ih =>
    rw [List.flatMap_cons, List.append_assoc]
    by_cases hc : isSingleQuote c = true
    · have hd : doubled c = [c, c] := if_pos hc
      rw [hd, List.cons_append, List.cons_append, List.nil_append,
        Quotation.verbatim_double hc hc, ih]
      simp [Quotation.after]
    · have hd : doubled c = [c] := if_neg hc
      rw [hd, List.cons_append, List.nil_append, Quotation.verbatim_cons (by simpa using hc), ih]
      simp [Quotation.after]

theorem quote_eq (v : Text) : quote v = '\'' :: (v.flatMap doubled ++ ['\'']) := rfl

theorem scanAll_quote (start : Nat) (v : Text) {tail : Text} (ht : endsWord tail = true) :
    Lexeme.scanAll start (quote v ++ tail) =
      (start, .ofQuoted v tail) :: Lexeme.scanAll (start + (quote v).length) tail := by
  have hquote : tail.head?.any isSingleQuote = false :=
    Lexeme.any_head?_of_endsWord (by decide) ht
  have hscan : Lexeme.scan '\'' (v.flatMap doubled ++ ['\''] ++ tail) = .ofQuoted v tail := by
    rw [List.append_assoc]
    change Lexeme.quoted .verbatim '\'' true (Quotation.verbatim _) = _
    rw [List.cons_append, List.nil_append, verbatim_doubled v hquote]
    rfl
  rw [quote_eq, List.cons_append, Lexeme.scanAll_cons (by decide) (by decide), hscan]
  rfl

/-- What the trial looks for. -/
def isPlain : Text → Bool
  | [] => false
  | c :: rest =>
    !isBlank c && !(c == '#') && (Lexeme.scan c rest).isPlain && (Lexeme.scan c rest).rest.isEmpty

theorem scanAll_of_isPlain (start : Nat) {v tail : Text} (h : isPlain v = true)
    (ht : endsWord tail = true) :
    Lexeme.scanAll start (v ++ tail) =
      (start, .ofPlain v tail) :: Lexeme.scanAll (start + v.length) tail := by
  cases v with
  | nil => cases h
  | cons c rest =>
    simp only [isPlain, Bool.and_eq_true, Bool.not_eq_true', List.isEmpty_iff] at h
    obtain ⟨⟨⟨hb, hc⟩, hp⟩, hr⟩ := h
    rw [List.cons_append, Lexeme.scanAll_cons hb hc, Lexeme.scan_append hp hr ht]
    rfl

theorem isPlain_of_scanAll {start : Nat} {v : Text} {p : Placed}
    (h : Lexeme.scanAll start v = [p]) (hp : p.2.isPlain = true) (hv : p.2.value = v) :
    isPlain v = true := by
  have hraw : p.2.raw = v := by
    obtain ⟨c, rest, -, hl⟩ := Lexeme.exists_scan_of_mem (h ▸ List.mem_singleton_self p)
    rw [← hv, hl]
    exact (Lexeme.value_eq_raw_of_isPlain (hl ▸ hp)).symm
  obtain ⟨c, rest, rfl, hb, hc, rfl, hr⟩ := Lexeme.eq_scan_of_raw h hraw
  simp only at hp
  simp only [isPlain, hb, hc, hp, hr, Bool.not_false, Bool.true_and, List.isEmpty_nil]

theorem trial_scanAll (v : Text) :
    Lexeme.scanAll 0 (trial v) =
      (0, .ofPlain "echo".toList (' ' :: v)) :: Lexeme.scanAll 5 v := by
  have hecho : isPlain "echo".toList = true := by decide +kernel
  change Lexeme.scanAll 0 ("echo".toList ++ ' ' :: v) = _
  rw [scanAll_of_isPlain 0 hecho rfl, Lexeme.scanAll_blank rfl]
  rfl

theorem needsQuoting_eq_false_iff (v : Text) : needsQuoting v = false ↔ isPlain v = true := by
  have hall := trial_scanAll v
  constructor
  · intro h
    simp only [needsQuoting] at h
    split at h
    · rename_i echo token finish hscan
      have htokens : [echo, token, finish] = Token.scan (trial v) :=
        @Token.eq_scan_of_read true _ _ hscan
      rw [Token.scan, hall, List.map_cons, List.cons_append] at htokens
      have hrest := (List.cons.inj htokens).2
      match hv : Lexeme.scanAll 5 v, hrest with
      | [], hrest => simp at hrest
      | [p], hrest =>
        obtain ⟨rfl, -⟩ := List.cons.inj hrest
        simp only [Bool.not_eq_false', Bool.and_eq_true, beq_iff_eq] at h
        have hp : p.2.isPlain = true := Bool.and_eq_true_iff.mpr h.1
        exact isPlain_of_scanAll hv hp h.2
      | _ :: _ :: _, hrest => simp at hrest
    · cases h
  · intro h
    have hv : Lexeme.scanAll 5 v = [(5, .ofPlain v [])] := by
      have := @scanAll_of_isPlain 5 v [] h rfl
      rwa [List.append_nil, Lexeme.scanAll_nil] at this
    rw [hv] at hall
    have hfault : Token.fault? (trial v) = none := by
      refine Token.fault?_eq_none fun p hp => ?_
      simp only [hall, List.mem_cons, List.not_mem_nil, or_false] at hp
      rcases hp with rfl | rfl <;> rfl
    simp only [needsQuoting, Token.scanStrict_eq_ok hfault, Token.scan, hall]
    simp [Token.ofLexeme, Lexeme.ofPlain]

def argument (v tail : Text) : Lexeme :=
  if needsQuoting v then .ofQuoted v tail else .ofPlain v tail

theorem scanAll_quoteIfNeeded (start : Nat) (v : Text) {tail : Text} (ht : endsWord tail = true) :
    Lexeme.scanAll start (quoteIfNeeded v ++ tail) =
      (start, argument v tail) ::
        Lexeme.scanAll (start + (quoteIfNeeded v).length) tail := by
  by_cases h : needsQuoting v = true
  · simp only [quoteIfNeeded, argument, h, if_true]
    exact scanAll_quote start v ht
  · have hp := (needsQuoting_eq_false_iff v).mp (by simpa using h)
    simp only [quoteIfNeeded, argument, h]
    exact scanAll_of_isPlain start hp ht

@[simp] theorem argument_value (v tail : Text) : (argument v tail).value = v := by
  unfold argument; split <;> rfl

@[simp] theorem argument_literal (v tail : Text) : (argument v tail).literal = true := by
  unfold argument; split <;> rfl

@[simp] theorem argument_opened (v tail : Text) : (argument v tail).opened = none := by
  unfold argument; split <;> rfl

theorem argument_kind (v tail : Text) : (argument v tail).kind = .bare ∨
    (argument v tail).kind = .number ∨ (argument v tail).kind = .verbatim := by
  unfold argument Lexeme.ofPlain
  split
  · exact .inr (.inr rfl)
  · dsimp only
    split
    · exact .inr (.inl rfl)
    · exact .inl rfl

end Quoting

end CommandShell
