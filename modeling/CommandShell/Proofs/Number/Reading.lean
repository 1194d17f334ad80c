import CommandShell.Number.Reading
import CommandShell.Proofs.Token.Tiling
import Mathlib.Data.List.TakeWhile

/-!
Whatever the scanner takes for a number can be read as one: digits of any script with an optional
sign, fraction and exponent.
-/

set_option autoImplicit false

namespace CommandShell

open Text (isDecimal)

namespace Numeral

/-- No script has a digit among its blanks. -/
theorem zeroDigits_apart : ∀ first ∈ Text.zeroDigits, ∀ range ∈ Text.spaceRanges,
    range.2 < first ∨ first + 9 < range.1 := by
  decide +kernel

theorem isBlank_of_isDecimal {c : Char} (h : isDecimal c = true) : isBlank c = false := by
  refine Bool.eq_false_iff.mpr fun hblank => ?_
  rw [isDecimal, Text.digitValue?] at h
  rw [isBlank] at hblank
  split at hblank
  · rename_i hascii
    rw [if_pos hascii] at h
    cases hdigit : c.isDigit with
    | false => simp [hdigit] at h
    | true =>
      simp only [Char.isDigit, Bool.and_eq_true, decide_eq_true_eq] at hdigit
      rcases Bool.or_eq_true_iff.mp hblank with hspace | hcontrol
      · rw [beq_iff_eq.mp hspace] at hdigit
        exact absurd hdigit.1 (by decide)
      · simp only [Bool.and_eq_true, decide_eq_true_eq, UInt32.le_iff_toNat_le, ge_iff_le]
          at hdigit hcontrol
        have : (48 : Nat) ≤ 13 := Nat.le_trans hdigit.1 hcontrol.2
        omega
  · rename_i hascii
    rw [if_neg hascii, Option.isSome_map, List.find?_isSome] at h
    obtain ⟨first, hfirst, hdigit⟩ := h
    rw [Text.isSpace, if_neg hascii] at hblank
    obtain ⟨range, hrange, hin⟩ := List.any_eq_true.mp hblank
    have hapart := zeroDigits_apart first hfirst range hrange
    simp only [Bool.and_eq_true, decide_eq_true_eq] at hdigit hin
    omega

def digit (c : Char) : Nat := (Text.digitValue? c).getD 0

theorem digitsFrom_eq {s : Text} (h : ∀ c ∈ (s.dropWhile isDecimal).head?, c ≠ '_')
    (afterDigit : Bool) :
    digitsFrom afterDigit s = some ((s.takeWhile isDecimal).map digit, s.dropWhile isDecimal) := by
  induction s generalizing afterDigit with
  | nil => rfl
  | cons c s ih =>
    cases hd : Text.digitValue? c with
    | some d =>
      have hdecimal : isDecimal c = true := by rw [isDecimal, hd, Option.isSome_some]
      rw [List.dropWhile_cons, if_pos hdecimal] at h ⊢
      rw [List.takeWhile_cons, if_pos hdecimal]
      simp only [digitsFrom, hd, ih h, Option.map_some, List.map_cons, digit, Option.getD_some]
    | none =>
      have hdecimal : ¬ isDecimal c = true := by simp [isDecimal, hd]
      rw [List.dropWhile_cons, if_neg hdecimal] at h ⊢
      rw [List.takeWhile_cons, if_neg hdecimal]
      have hc : (c == '_') = false := beq_eq_false_iff_ne.mpr (h c rfl)
      simp only [digitsFrom, hd, hc, Bool.false_eq_true, if_false, List.map_nil]

end Numeral

theorem Text.stripBy_eq_self {blank : Char → Bool} {s : Text} (h : ∀ c ∈ s, blank c = false) :
    stripBy blank s = s := by
  have hkept (t : Text) (ht : ∀ c ∈ t, blank c = false) : t.dropWhile blank = t := by
    cases t with
    | nil => rfl
    | cons c t => rw [List.dropWhile_cons, if_neg (by simp [ht c])]
  rw [stripBy, stripEnd, stripStart, hkept s h, hkept s.reverse (by simpa using h),
    List.reverse_reverse]

namespace Lexeme

open Numeral

def fractionOf : Text → Text × Text
  | '.' :: rest => (rest.takeWhile isDecimal, rest.dropWhile isDecimal)
  | rest => ([], rest)

theorem sign_cons (c : Char) (s : Text) :
    (sign (c :: s)).2 = if c == '+' || c == '-' then s else c :: s := by
  unfold sign
  split <;> simp_all

theorem isNumber_eq (s : Text) : isNumber s =
    let body := (sign s).2
    let fraction := fractionOf (body.dropWhile isDecimal)
    (!((body.takeWhile isDecimal).isEmpty && fraction.1.isEmpty) &&
      isNumber.isExponent fraction.2) := by
  cases s with
  | nil => rfl
  | cons c s =>
    rw [sign_cons]
    rfl

theorem isExponent_cons (c : Char) (s : Text) : isNumber.isExponent (c :: s) =
    ((c == 'e' || c == 'E') && !(sign s).2.isEmpty && (sign s).2.all isDecimal) := by
  cases s with
  | nil => rfl
  | cons d s =>
    rw [sign_cons]
    rfl

theorem head?_ne_of_isExponent {s : Text} (h : isNumber.isExponent s = true) :
    ∀ c ∈ s.head?, c ≠ '_' := by
  cases s with
  | nil => simp
  | cons c s =>
    rintro _ hc rfl
    obtain rfl := Option.some.inj hc
    simp [isExponent_cons] at h

theorem head?_ne_of_fractionOf {s : Text} (h : isNumber.isExponent (fractionOf s).2 = true) :
    ∀ c ∈ s.head?, c ≠ '_' := by
  unfold fractionOf at h
  split at h
  · simp
  · exact head?_ne_of_isExponent h

theorem mem_sign {c : Char} {s : Text} (h : c ∈ s) : c = '+' ∨ c = '-' ∨ c ∈ (sign s).2 := by
  cases s with
  | nil => cases h
  | cons d s =>
    rw [sign_cons]
    split
    · rename_i hd
      rcases List.mem_cons.mp h with rfl | h
      · simpa [or_assoc] using Or.inl hd
      · exact .inr (.inr h)
    · exact .inr (.inr h)

theorem mem_fractionOf {c : Char} {s : Text} (h : c ∈ s) :
    c = '.' ∨ isDecimal c = true ∨ c ∈ (fractionOf s).2 := by
  unfold fractionOf
  split
  · rename_i rest
    rcases List.mem_cons.mp h with rfl | h
    · exact .inl rfl
    · rw [← List.takeWhile_append_dropWhile (p := isDecimal) (l := rest)] at h
      rcases List.mem_append.mp h with h | h
      · exact .inr (.inl (List.mem_takeWhile_imp h))
      · exact .inr (.inr h)
  · exact .inr (.inr h)

theorem isBlank_of_mem_exponent {s : Text} (h : isNumber.isExponent s = true) :
    ∀ c ∈ s, isBlank c = false := by
  cases s with
  | nil => simp
  | cons d s =>
    rw [isExponent_cons, Bool.and_eq_true, Bool.and_eq_true] at h
    obtain ⟨⟨hd, -⟩, hall⟩ := h
    refine List.forall_mem_cons.mpr ⟨?_, fun c hc => ?_⟩
    · rcases Bool.or_eq_true_iff.mp hd with hd | hd <;> rw [beq_iff_eq.mp hd] <;> decide
    · rcases mem_sign hc with rfl | rfl | hc
      · decide
      · decide
      · exact isBlank_of_isDecimal (List.all_eq_true.mp hall c hc)

theorem isBlank_of_mem_number {s : Text} (h : isNumber s = true) :
    ∀ c ∈ s, isBlank c = false := by
  rw [isNumber_eq, Bool.and_eq_true] at h
  intro c hc
  rcases mem_sign hc with rfl | rfl | hc
  · decide
  · decide
  · rw [← List.takeWhile_append_dropWhile (p := isDecimal) (l := (sign s).2)] at hc
    rcases List.mem_append.mp hc with hc | hc
    · exact isBlank_of_isDecimal (List.mem_takeWhile_imp hc)
    · rcases mem_fractionOf hc with rfl | hc | hc
      · decide
      · exact isBlank_of_isDecimal hc
      · exact isBlank_of_mem_exponent h.2 c hc

end Lexeme

namespace Binary64

open Numeral Lexeme

theorem fraction_eq {s : Text} (h : isNumber.isExponent (fractionOf s).2 = true) :
    fraction s = some ((fractionOf s).1.map digit, (fractionOf s).2) := by
  revert h
  unfold fractionOf
  split
  · exact fun h => digitsFrom_eq (head?_ne_of_isExponent h) false
  · rename_i hpoint
    rw [fraction.eq_2 _ hpoint]
    exact fun _ => rfl

theorem exponentPart_eq {s : Text} (h : isNumber.isExponent s = true) :
    ∃ n, exponentPart s = some (n, []) := by
  cases s with
  | nil => exact ⟨0, rfl⟩
  | cons c s =>
    rw [isExponent_cons, Bool.and_eq_true, Bool.and_eq_true] at h
    obtain ⟨⟨hc, hsome⟩, hall⟩ := h
    have htake : (sign s).2.takeWhile isDecimal = (sign s).2 :=
      List.takeWhile_eq_self_iff.mpr (List.all_eq_true.mp hall)
    have hdrop : (sign s).2.dropWhile isDecimal = [] :=
      List.dropWhile_eq_nil_iff.mpr (List.all_eq_true.mp hall)
    have hdigits := digitsFrom_eq (s := (sign s).2) (by simp [hdrop]) false
    rw [htake, hdrop] at hdigits
    simp only [exponentPart, hc, if_true, hdigits]
    cases hbody : (sign s).2 with
    | nil => simp [hbody] at hsome
    | cons d body => exact ⟨_, rfl⟩

theorem decimalAt_eq {s : Text} (negative : Bool)
    (h : isNumber.isExponent (fractionOf (s.dropWhile isDecimal)).2 = true)
    (hdigits : ((s.takeWhile isDecimal).isEmpty &&
      (fractionOf (s.dropWhile isDecimal)).1.isEmpty) = false) :
    ∃ x, decimalAt negative s = some (x, []) := by
  obtain ⟨n, hexponent⟩ := exponentPart_eq h
  have hwhole := digitsFrom_eq (head?_ne_of_fractionOf h) false
  rw [decimalAt, hwhole]
  simp only [Option.bind_eq_bind, Option.bind_some, fraction_eq h, hexponent, List.isEmpty_map,
    hdigits, Bool.false_eq_true, if_false]
  exact ⟨_, rfl⟩

theorem read?_isSome_of_isNumber {s : Text} (h : isNumber s = true) : (read? s).isSome = true := by
  have hblank := Text.stripBy_eq_self (isBlank_of_mem_number h)
  rw [isNumber_eq, Bool.and_eq_true, Bool.not_eq_true'] at h
  obtain ⟨x, hx⟩ := decimalAt_eq (sign s).1 h.2 h.1
  rw [read?, hblank]
  dsimp only
  split
  · rfl
  · rw [hx]
    rfl

end Binary64

theorem Lexeme.isNumber_of_kind {c : Char} {rest : Text} (h : (scan c rest).kind = .number) :
    isNumber (scan c rest).value = true := by
  have hword (s : Text) (h : (word s).kind = .number) : isNumber (word s).value = true := by
    simp only [word] at h ⊢
    split at h
    · rename_i hn
      exact (Bool.and_eq_true_iff.mp hn).2
    · cases h
  revert h
  fun_cases scan c rest with
  | case1 => simp [operator_kind]
  | case2 => simp [quoted]
  | case3 => simp [quoted]
  | case4 => simp [reference]
  | case5 => exact hword _
  | case6 => simp [parameter_kind]
  | case7 => exact hword _

/-- Every number of a text can be read, however long it is and whatever digits it has. -/
theorem Token.read?_isSome_of_mem {s : Text} {t : Token} (ht : t ∈ scan s) (hk : t.kind = .number) :
    (Binary64.read? t.value).isSome = true := by
  rcases List.mem_append.mp ht with ht | ht
  · obtain ⟨p, hp, rfl⟩ := List.mem_map.mp ht
    obtain ⟨c, rest, -, hl⟩ := Lexeme.exists_scan_of_mem hp
    simp only [ofLexeme, hl] at hk ⊢
    exact Binary64.read?_isSome_of_isNumber (Lexeme.isNumber_of_kind hk)
  · obtain rfl := List.mem_singleton.mp ht
    cases hk

end CommandShell
