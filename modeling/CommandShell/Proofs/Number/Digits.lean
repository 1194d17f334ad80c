import CommandShell.Proofs.Number.Reading
import CommandShell.Proofs.Number.Rounding
import CommandShell.Proofs.Token.Inside
import Mathlib.Data.Nat.Digits.Defs

/-!
Whole numbers as they are written, a sign or none and decimal digits. They are one token, and are
read as the number of the binary64 format that is nearest to what the digits denote.
-/

set_option autoImplicit false

namespace CommandShell

open Sign

namespace Sign

theorem mem_of_isDigit {c : Char} (h : c.isDigit = true) : c ∈ "0123456789".toList := by
  simp only [Char.isDigit, Bool.and_eq_true, decide_eq_true_eq, UInt32.le_iff_toNat_le, ge_iff_le]
    at h
  have hlow : 48 ≤ c.toNat := h.1
  have hhigh : c.toNat ≤ 57 := h.2
  obtain ⟨i, hi⟩ := Nat.exists_eq_add_of_le hlow
  have hall : ∀ i < 10, Char.ofNat (48 + i) ∈ "0123456789".toList := by decide
  rw [← Char.ofNat_toNat c, hi]
  exact hall i (by omega)

def isWholeChar (c : Char) : Bool := "+-0123456789".toList.contains c

theorem isOrdinary_of_isWholeChar {c : Char} (h : isWholeChar c = true) :
    IsOrdinary c ∧ (c == '$') = false ∧ (c == '@') = false ∧ (c == '#') = false ∧
      startsParameter c = false := by
  have hc : c ∈ "+-0123456789".toList := List.contains_iff_mem.mp h
  exact ⟨{ blank := eq_false_of_any (by decide) hc
           line := eq_false_of_any (f := (· == '\n')) (by decide) hc
           operator := eq_false_of_any (by decide) hc
           escape := eq_false_of_any (f := (· == backtick)) (by decide) hc
           single := eq_false_of_any (by decide) hc
           double := eq_false_of_any (by decide) hc },
    eq_false_of_any (f := (· == '$')) (by decide) hc,
    eq_false_of_any (f := (· == '@')) (by decide) hc,
    eq_false_of_any (f := (· == '#')) (by decide) hc,
    eq_false_of_any (by decide +kernel) hc⟩

end Sign

namespace Numeral

def signs : List Text := [[], ['+'], ['-']]

/-- A whole number as it is written. -/
structure Written where
  sign : Text
  digits : Text
  mem_signs : sign ∈ signs
  ne_nil : digits ≠ []
  isDigit : ∀ c ∈ digits, c.isDigit = true

namespace Written

variable (w : Written)

def text : Text := w.sign ++ w.digits

def negative : Bool := w.sign = ['-']

def magnitude : Nat := Nat.ofDigits 10 (w.digits.reverse.map fun c => c.toNat - 48)

def toInt : Int := signed w.negative w.magnitude

end Written

theorem signed_natAbs (negative : Bool) (n : Nat) : (signed negative n).natAbs = n := by
  cases negative
  · exact Int.natAbs_natCast n
  · exact (Int.natAbs_neg n).trans (Int.natAbs_natCast n)

theorem signed_lt_zero {negative : Bool} {n : Nat} (h : 0 < n) :
    decide (signed negative n < 0) = negative := by
  cases negative
  · exact decide_eq_false (by simp only [signed, Bool.false_eq_true, if_false]; omega)
  · exact decide_eq_true (by simp only [signed, if_true]; omega)

theorem digit_of_isDigit {c : Char} (h : c.isDigit = true) :
    Text.isDecimal c = true ∧ digit c = c.toNat - 48 := by
  have hall : "0123456789".toList.all
      (fun c => Text.isDecimal c && digit c == c.toNat - 48) = true := by decide +kernel
  simpa using List.all_eq_true.mp hall c (mem_of_isDigit h)

theorem value_eq_ofDigits (digits : List Nat) : value digits = Nat.ofDigits 10 digits.reverse := by
  rw [Nat.ofDigits_eq_foldr, List.foldr_reverse, value]
  simp only [Nat.cast_id, Nat.add_comm]

theorem value_dropWhile (digits : List Nat) : value (digits.dropWhile (· == 0)) = value digits := by
  induction digits with
  | nil => rfl
  | cons d digits ih =>
    rw [List.dropWhile_cons]
    split
    · rename_i hd
      obtain rfl : d = 0 := by simpa using hd
      exact ih
    · rfl

namespace Written

variable (w : Written)

theorem value_digits : value (w.digits.map digit) = w.magnitude := by
  rw [value_eq_ofDigits, magnitude, ← List.map_reverse]
  refine congrArg _ (List.map_congr_left fun c hc => ?_)
  exact (digit_of_isDigit (w.isDigit c (List.mem_reverse.mp hc))).2

theorem takeWhile_digits : w.digits.takeWhile Text.isDecimal = w.digits ∧
    w.digits.dropWhile Text.isDecimal = [] := by
  have hall : ∀ c ∈ w.digits, Text.isDecimal c = true := fun c hc =>
    (digit_of_isDigit (w.isDigit c hc)).1
  exact ⟨List.takeWhile_eq_self_iff.mpr hall, List.dropWhile_eq_nil_iff.mpr hall⟩

theorem exists_digit : ∃ c rest, w.digits = c :: rest ∧ c ∈ "0123456789".toList := by
  obtain ⟨c, rest, hdigits⟩ := List.exists_cons_of_ne_nil w.ne_nil
  exact ⟨c, rest, hdigits, mem_of_isDigit (w.isDigit c (hdigits ▸ List.mem_cons_self))⟩

theorem sign_text : Numeral.sign w.text = (w.negative, w.digits) := by
  obtain ⟨c, rest, hdigits, hc⟩ := w.exists_digit
  have hsign := w.mem_signs
  simp only [signs, List.mem_cons, List.not_mem_nil, or_false] at hsign
  rw [text, negative]
  rcases hsign with h | h | h
  · rw [h, hdigits, List.nil_append]
    unfold Numeral.sign
    split
    · rename_i heq
      obtain ⟨rfl, -⟩ := List.cons.inj heq
      exact absurd hc (by decide)
    · rename_i heq
      obtain ⟨rfl, -⟩ := List.cons.inj heq
      exact absurd hc (by decide)
    · rfl
  · rw [h]
    rfl
  · rw [h]
    rfl

theorem isNumber_text : Lexeme.isNumber w.text = true := by
  obtain ⟨htake, hdrop⟩ := w.takeWhile_digits
  rw [Lexeme.isNumber_eq, w.sign_text]
  simp [htake, hdrop, w.ne_nil, Lexeme.fractionOf, Lexeme.isNumber.isExponent]

theorem isWholeChar_of_mem : ∀ c ∈ w.text, isWholeChar c = true := by
  have hsigns : signs.all (fun sign => sign.all isWholeChar) = true := by decide
  have hdigits : "0123456789".toList.all isWholeChar = true := by decide
  intro c hc
  rcases List.mem_append.mp hc with hc | hc
  · exact List.all_eq_true.mp (List.all_eq_true.mp hsigns w.sign w.mem_signs) c hc
  · exact List.all_eq_true.mp hdigits c (mem_of_isDigit (w.isDigit c hc))

end Written

end Numeral

open Numeral (Written)

namespace Binary64

theorem ofDecimal_whole (negative : Bool) (n count : Nat) :
    ofDecimal negative n count 0 = ofRatio negative n 1 := by
  by_cases hn : n = 0
  · simp only [ofDecimal, ofRatio, if_pos hn]
  · have hten : n * tenTo (0 : Int).toNat = n := Nat.mul_one n
    rw [ofDecimal, if_neg hn, if_neg (by omega), if_neg (by decide), hten]
    rfl

theorem named?_digits (w : Written) (negative : Bool) : named? negative w.digits = none := by
  obtain ⟨c, rest, hdigits, hc⟩ := w.exists_digit
  have hall : "0123456789".toList.all (fun c => c.toLower != 'n' && c.toLower != 'i') = true := by
    decide
  have hletter : c.toLower ≠ 'n' ∧ c.toLower ≠ 'i' := by
    simpa using List.all_eq_true.mp hall c hc
  simp [named?, hdigits, hletter]

theorem read?_text (w : Written) : read? w.text = some (ofRatio w.negative w.magnitude 1) := by
  obtain ⟨htake, hdrop⟩ := w.takeWhile_digits
  have hblank := Text.stripBy_eq_self (Lexeme.isBlank_of_mem_number w.isNumber_text)
  have hdigits := Numeral.digitsFrom_eq (s := w.digits) (by simp [hdrop]) false
  rw [htake, hdrop] at hdigits
  have hsome : (w.digits.map Numeral.digit).isEmpty = false := by simpa using w.ne_nil
  have hdecimal : decimalAt w.negative w.digits =
      some (ofRatio w.negative w.magnitude 1, []) := by
    simp only [decimalAt, hdigits, Option.bind_eq_bind, Option.bind_some, fraction, hsome,
      Bool.false_and, Bool.false_eq_true, if_false, exponentPart, List.append_nil,
      Numeral.value_dropWhile, w.value_digits]
    exact congrArg (fun x => some (x, _)) (ofDecimal_whole _ _ _)
  rw [read?, hblank, w.sign_text]
  simp only [named?_digits, hdecimal]

end Binary64

theorem Lexeme.scan_wholeChars {c : Char} {rest : Text}
    (h : ∀ d ∈ c :: rest, isWholeChar d = true) (hnumber : isNumber (c :: rest) = true) :
    scan c rest = ⟨.number, c :: rest, c :: rest, none, true, none, []⟩ := by
  obtain ⟨hc, hdollar, hat, -, -⟩ := isOrdinary_of_isWholeChar (h c List.mem_cons_self)
  have hname : rest.head?.any startsParameter = false := by
    cases rest with
    | nil => rfl
    | cons d rest => exact (isOrdinary_of_isWholeChar (h d (by simp))).2.2.2.2
  have hword := Word.scan_ordinary (fun d hd => (isOrdinary_of_isWholeChar (h d hd)).1) none
  have hplain : (c :: rest).all (· != '$') = true :=
    List.all_eq_true.mpr fun d hd => bne_iff_ne.mpr
      (beq_eq_false_iff_ne.mp (isOrdinary_of_isWholeChar (h d hd)).2.1)
  have hhead : ((c :: rest).head? != some '@') = true := by simpa using hat
  simp only [scan, hc.operator, hc.single, hc.double, hdollar, hname, Bool.and_false,
    Bool.false_eq_true, if_false, word, hword, hplain, hhead, hnumber, Bool.and_self, if_true,
    Option.map_none]

theorem Token.scanStrict_written (w : Written) : scanStrict w.text =
    .ok [⟨.number, w.text, w.text, 0, none, true⟩, finish w.text.length] := by
  have hchars := w.isWholeChar_of_mem
  have hnumber := w.isNumber_text
  obtain ⟨c, rest, hw⟩ : ∃ c rest, w.text = c :: rest :=
    List.exists_cons_of_ne_nil (List.append_ne_nil_of_right_ne_nil w.sign w.ne_nil)
  rw [hw] at hchars hnumber ⊢
  obtain ⟨hc, -, -, hcomment, -⟩ := isOrdinary_of_isWholeChar (hchars c List.mem_cons_self)
  have hall : Lexeme.scanAll 0 (c :: rest) =
      [(0, ⟨.number, c :: rest, c :: rest, none, true, none, []⟩)] := by
    rw [Lexeme.scanAll_cons hc.blank hcomment, Lexeme.scan_wholeChars hchars hnumber,
      Lexeme.scanAll_nil]
  have hfault : fault? (c :: rest) = none := fault?_eq_none (by simp [hall])
  rw [scanStrict_eq_ok hfault, scan, hall]
  rfl

end CommandShell
