import CommandShell.Number.Binary64
import CommandShell.Number.Numeral
import Mathlib.Algebra.Group.Nat.Defs
import Mathlib.Data.Nat.Log

/-!
Whole numbers in the binary64 format. A whole number is rounded to one with at most 53 bits before
its zeros. No whole number of the format is nearer, so that just the numbers of the format are kept
as they are.
-/

set_option autoImplicit false

namespace CommandShell.Binary64

open Numeral (signed)

theorem twoTo_eq (n : Nat) : twoTo n = 2 ^ n := rfl

section Nearest

variable {den : Nat}

/-- Rounding a quotient errs by half a unit at most, and where it leaves out half a unit the result
is even. -/
theorem nearest_error (num : Nat) (h : 0 < den) :
    2 * (nearest num den * den) ≤ 2 * num + den ∧ 2 * num ≤ 2 * (nearest num den * den) + den ∧
      (2 * num = 2 * (nearest num den * den) + den → nearest num den % 2 = 0) := by
  have hsplit : num / den * den + num % den = num := Nat.div_add_mod' num den
  have hlt := Nat.mod_lt num h
  unfold nearest
  generalize num / den = q at *
  generalize num % den = r at *
  have hnext : (q + 1) * den = q * den + den := Nat.succ_mul q den
  dsimp only
  split_ifs with hbelow habove heven
  · omega
  · omega
  · omega
  · omega

theorem nearest_le (num : Nat) (h : 0 < den) (m : Nat) :
    ((nearest num den * den : Nat) - (num : Int)).natAbs ≤
      ((m * den : Nat) - (num : Int)).natAbs := by
  obtain ⟨hhigh, hlow, -⟩ := nearest_error num h
  rcases Nat.lt_trichotomy m (nearest num den) with hm | rfl | hm
  · have := Nat.mul_le_mul_right den hm
    rw [Nat.succ_mul] at this
    omega
  · exact Nat.le_refl _
  · have := Nat.mul_le_mul_right den hm
    rw [Nat.succ_mul] at this
    omega

theorem nearest_one (n : Nat) : nearest n 1 = n := by
  simp [nearest, Nat.mod_one]

end Nearest

/-! ## Whole numbers of the format -/

/-- A whole number that is a number of the format. -/
def IsWhole (n : Nat) : Prop :=
  ∃ m e, m < twoTo 53 ∧ leastExponent ≤ e ∧ e ≤ greatestExponent ∧
    (finite false m e).toInt? = some (n : Int)

theorem toInt?_finite (negative : Bool) (m k : Nat) :
    (finite negative m k).toInt? = some (signed negative (m * 2 ^ k)) := by
  simp [toInt?, twoTo_eq, signed, Nat.mod_one]

theorem toInt?_shifted (negative : Bool) (n k : Nat) :
    (finite negative (n * 2 ^ k) (-(k : Int))).toInt? = some (signed negative n) := by
  simp only [toInt?, twoTo_eq, Int.toNat_neg_natCast, Int.neg_neg, Int.toNat_natCast,
    Nat.pow_zero, Nat.mul_one, Nat.mul_mod_left, if_true, Nat.mul_div_left n (Nat.two_pow_pos k)]
  rfl

theorem toInt?_zero (negative : Bool) : (zero negative).toInt? = some (signed negative 0) := by
  simp only [zero, toInt?, Nat.zero_mul, Nat.zero_mod, Nat.zero_div, if_true]
  rfl

theorem isWhole_iff {n : Nat} : IsWhole n ↔ ∃ m k, m < 2 ^ 53 ∧ k ≤ 971 ∧ n = m * 2 ^ k := by
  constructor
  · rintro ⟨m, e, hm, -, he, hn⟩
    rcases Int.le_total 0 e with hpos | hneg
    · obtain ⟨k, rfl⟩ := Int.eq_ofNat_of_zero_le hpos
      rw [toInt?_finite] at hn
      exact ⟨m, k, hm, Int.ofNat_le.mp he, Int.ofNat_inj.mp (Option.some.inj hn).symm⟩
    · obtain ⟨k, rfl⟩ := Int.exists_eq_neg_ofNat hneg
      have hm : m < 2 ^ 53 := hm
      simp only [toInt?, twoTo_eq, Int.toNat_neg_natCast, Int.neg_neg, Int.toNat_natCast] at hn
      split at hn
      · have hvalue : m * 2 ^ 0 / 2 ^ k = n := Int.ofNat_inj.mp (Option.some.inj hn)
        rw [Nat.pow_zero, Nat.mul_one] at hvalue
        have hle := Nat.div_le_self m (2 ^ k)
        exact ⟨n, 0, by omega, by omega, by omega⟩
      · cases hn
  · rintro ⟨m, k, hm, hk, rfl⟩
    have hleast : leastExponent ≤ (k : Int) :=
      Int.le_trans (by decide : leastExponent ≤ 0) (Int.natCast_nonneg k)
    exact ⟨m, k, hm, hleast, Int.ofNat_le.mpr hk, toInt?_finite false m k⟩

theorem isWhole_of_le {n : Nat} (h : n ≤ 2 ^ 53) : IsWhole n := by
  rcases Nat.lt_or_eq_of_le h with h | rfl
  · exact isWhole_iff.mpr ⟨n, 0, h, by omega, by omega⟩
  · exact isWhole_iff.mpr ⟨2 ^ 52, 1, by decide, by decide, by decide⟩

theorem not_isWhole_of_odd {n : Nat} (h : 2 ^ 53 ≤ n) (hodd : n % 2 = 1) : ¬ IsWhole n := by
  rw [isWhole_iff]
  rintro ⟨m, k, hm, -, rfl⟩
  cases k with
  | zero => omega
  | succ k =>
    rw [Nat.pow_succ, ← Nat.mul_assoc] at hodd
    omega

def unit (n : Nat) : Nat := n.log2 - 52

def rounded (n : Nat) : Nat := nearest n (2 ^ unit n) * 2 ^ unit n

def beyond (g : Nat) : Nat := (2 ^ 54 - 1) * 2 ^ g

/-- Half a unit beyond the greatest number of the format. -/
def limit : Nat := beyond 970

variable {n : Nat}

theorem unit_eq_zero (h : n < 2 ^ 53) : unit n = 0 := by
  rcases Nat.eq_zero_or_pos n with rfl | hpos
  · rfl
  · have := (Nat.log2_lt (Nat.ne_of_gt hpos)).mpr h
    rw [unit]
    omega

theorem rounded_of_lt (h : n < 2 ^ 53) : rounded n = n := by
  rw [rounded, unit_eq_zero h, Nat.pow_zero, nearest_one, Nat.mul_one]

/-- A number of more bits has its first bit 52 places above the unit. -/
theorem between_units (h : 2 ^ 53 ≤ n) :
    0 < unit n ∧ 2 ^ 52 * 2 ^ unit n ≤ n ∧ n < 2 ^ 53 * 2 ^ unit n := by
  have hne : n ≠ 0 := by omega
  have hlog : 53 ≤ n.log2 := (Nat.le_log2 hne).mpr h
  have hunit : 52 + unit n = n.log2 := by rw [unit]; omega
  refine ⟨by omega, ?_, ?_⟩
  · rw [← Nat.pow_add, hunit]
    exact Nat.log2_self_le hne
  · rw [← Nat.pow_add, show 53 + unit n = n.log2 + 1 by omega]
    exact Nat.lt_log2_self

theorem nearest_unit_le (h : 2 ^ 53 ≤ n) : nearest n (2 ^ unit n) ≤ 2 ^ 53 := by
  obtain ⟨-, -, hlt⟩ := between_units h
  obtain ⟨hhigh, -, -⟩ := nearest_error n (Nat.two_pow_pos (unit n))
  by_contra hm
  have := Nat.mul_le_mul_right (2 ^ unit n) (Nat.not_le.mp hm)
  rw [Nat.succ_mul] at this
  omega

theorem rounded_le {y : Nat} (hy : IsWhole y) :
    ((rounded n : Int) - n).natAbs ≤ ((y : Int) - n).natAbs := by
  rcases Nat.lt_or_ge n (2 ^ 53) with h | h
  · rw [rounded_of_lt h]
    omega
  · obtain ⟨hpos, hlow, -⟩ := between_units h
    obtain ⟨m, k, hm, -, rfl⟩ := isWhole_iff.mp hy
    have hbest := nearest_le n (Nat.two_pow_pos (unit n))
    rcases Nat.lt_or_ge k (unit n) with hk | hk
    -- with fewer zeros it lies below all numbers with the bits of `n`, the least of which is nearer
    · have hhalf : 2 ^ unit n = 2 * 2 ^ (unit n - 1) := by
        rw [← Nat.pow_succ', Nat.succ_eq_add_one, Nat.sub_add_cancel hpos]
      have hbelow : m * 2 ^ k ≤ 2 ^ 53 * 2 ^ (unit n - 1) :=
        Nat.mul_le_mul (Nat.le_of_lt hm) (Nat.pow_le_pow_right (by omega) (by omega))
      have := hbest (2 ^ 52)
      rw [rounded]
      omega
    · have hmultiple : m * 2 ^ k = m * 2 ^ (k - unit n) * 2 ^ unit n := by
        rw [Nat.mul_assoc, ← Nat.pow_add, Nat.sub_add_cancel hk]
      rw [hmultiple]
      exact hbest _

theorem mul_lt_beyond {m k g : Nat} (hm : m < 2 ^ 53) (hk : k ≤ g + 1) :
    m * 2 ^ k < beyond g := by
  have hle : m * 2 ^ k ≤ (2 ^ 53 - 1) * 2 ^ (g + 1) :=
    Nat.mul_le_mul (Nat.le_sub_one_of_lt hm) (Nat.pow_le_pow_right (by omega) hk)
  have hpos := Nat.two_pow_pos g
  rw [Nat.pow_succ] at hle
  rw [beyond]
  omega

theorem lt_limit_of_isWhole (h : IsWhole n) : n < limit := by
  obtain ⟨m, k, hm, hk, rfl⟩ := isWhole_iff.mp h
  exact mul_lt_beyond hm hk

theorem lt_beyond_iff (h : 2 ^ 53 ≤ n) (g : Nat) : n < beyond g ↔
    if nearest n (2 ^ unit n) = 2 ^ 53 then unit n + 1 ≤ g + 1 else unit n ≤ g + 1 := by
  obtain ⟨hpos, hlow, hlt⟩ := between_units h
  have hmantissa := nearest_unit_le h
  obtain ⟨hhigh, hnear, heven⟩ := nearest_error n (Nat.two_pow_pos (unit n))
  generalize nearest n (2 ^ unit n) = m at *
  rw [beyond]
  rcases Nat.lt_trichotomy (unit n) (g + 1) with hk | hk | hk
  · have hbelow : 2 ^ unit n ≤ 2 ^ g := Nat.pow_le_pow_right (by omega) (by omega)
    have : n < (2 ^ 54 - 1) * 2 ^ g := by omega
    split_ifs <;> omega
  -- between the greatest number and the next power of two the rounding decides
  · have hx := Nat.two_pow_pos g
    rw [hk, Nat.pow_succ] at hhigh hnear heven
    split_ifs with hm
    · subst hm
      omega
    · rcases Nat.lt_or_ge m (2 ^ 53 - 1) with hlast | hlast
      · have := Nat.mul_le_mul_right (2 ^ g * 2) (Nat.le_sub_one_of_lt hlast)
        omega
      -- the greatest mantissa is odd
      · obtain rfl : m = 2 ^ 53 - 1 := by omega
        have : ¬ (2 ^ 53 - 1) % 2 = 0 := by decide
        omega
  · have habove : 2 ^ (g + 2) ≤ 2 ^ unit n := Nat.pow_le_pow_right (by omega) hk
    rw [Nat.pow_add] at habove
    have : ¬ n < (2 ^ 54 - 1) * 2 ^ g := by omega
    split_ifs <;> omega

/-- Rounding keeps the sign and finds the nearest of all whole numbers of the format. -/
theorem signed_rounded_le (negative : Bool) (n : Nat) {y : Int} (hy : IsWhole y.natAbs) :
    (signed negative (rounded n) - signed negative n).natAbs ≤
      (y - signed negative n).natAbs := by
  have hle := rounded_le (n := n) hy
  cases negative
  · simp only [signed, Bool.false_eq_true, if_false]
    omega
  · simp only [signed, if_true]
    omega

theorem isWhole_rounded (h : n < limit) : IsWhole (rounded n) := by
  rcases Nat.lt_or_ge n (2 ^ 53) with hsmall | hlarge
  · rw [rounded_of_lt hsmall]
    exact isWhole_of_le (Nat.le_of_lt hsmall)
  · have hexponent := (lt_beyond_iff hlarge 970).mp h
    have hmantissa := nearest_unit_le hlarge
    refine isWhole_iff.mpr ?_
    rw [rounded]
    split at hexponent
    · rename_i hcarry
      exact ⟨2 ^ 52, unit n + 1, by omega, hexponent, by rw [hcarry, Nat.pow_succ']; omega⟩
    · exact ⟨nearest n (2 ^ unit n), unit n, by omega, hexponent, rfl⟩

theorem rounded_eq_iff (h : n < limit) : rounded n = n ↔ IsWhole n := by
  refine ⟨fun he => he ▸ isWhole_rounded h, fun hn => ?_⟩
  have := rounded_le (n := n) hn
  omega

/-! ## The number nearest to a whole number -/

theorem inUnits_nat (n k : Nat) : inUnits n 1 k = (n, 2 ^ k) := by
  simp [inUnits, twoTo_eq]

theorem inUnits_neg (n k : Nat) : inUnits n 1 (-(k : Int)) = (n * 2 ^ k, 1) := by
  simp [inUnits, twoTo_eq]

theorem exponentOf_whole (h : n ≠ 0) : exponentOf n 1 = (n.log2 : Int) - 52 := by
  have hlow : max ((n.log2 : Int) - (Nat.log2 1 : Int) - 53) leastExponent = n.log2 - 53 := by
    rw [show Nat.log2 1 = 0 by decide, leastExponent]
    omega
  have hlog := Nat.log2_self_le h
  simp only [exponentOf, hlow, twoTo_eq]
  rcases Nat.le_total n.log2 53 with hle | hle
  · obtain ⟨k, hk⟩ := Nat.exists_eq_add_of_le hle
    have hneg : (n.log2 : Int) - 53 = -(k : Int) := by omega
    have hbits : 2 ^ 53 ≤ n * 2 ^ k := by
      rw [hk, Nat.pow_add]
      exact Nat.mul_le_mul_right _ hlog
    rw [hneg, inUnits_neg, Nat.div_one, if_neg (Nat.not_lt.mpr hbits)]
    omega
  · obtain ⟨k, hk⟩ := Nat.exists_eq_add_of_le hle
    have hpos : (n.log2 : Int) - 53 = (k : Int) := by omega
    have hbits : 2 ^ 53 ≤ n / 2 ^ k := by
      rw [Nat.le_div_iff_mul_le (Nat.two_pow_pos k), ← Nat.pow_add, ← hk]
      exact hlog
    rw [hpos, inUnits_nat, if_neg (Nat.not_lt.mpr hbits)]
    omega

theorem ofRatio_small (negative : Bool) (h : n < 2 ^ 53) :
    (ofRatio negative n 1).toInt? = some (signed negative n) := by
  by_cases hn : n = 0
  · rw [ofRatio, if_pos hn, hn]
    exact toInt?_zero negative
  · have hlog := (Nat.log2_lt hn).mpr h
    obtain ⟨k, hk⟩ := Nat.exists_eq_add_of_le (Nat.le_of_lt_succ hlog)
    have hneg : (n.log2 : Int) - 52 = -(k : Int) := by omega
    have hbits : n * 2 ^ k < 2 ^ 53 := by
      have := Nat.mul_lt_mul_of_pos_right (Nat.lt_log2_self (n := n)) (Nat.two_pow_pos k)
      rw [← Nat.pow_add] at this
      rwa [show n.log2 + 1 + k = 53 by omega] at this
    simp only [ofRatio, if_neg hn, exponentOf_whole hn, hneg, inUnits_neg, nearest_one, twoTo_eq,
      if_neg (Nat.ne_of_lt hbits)]
    rw [if_neg (by rw [greatestExponent]; omega)]
    exact toInt?_shifted negative n k

theorem ofRatio_large (negative : Bool) (h : 2 ^ 53 ≤ n) :
    (n < limit → (ofRatio negative n 1).toInt? = some (signed negative (rounded n))) ∧
      (limit ≤ n → ofRatio negative n 1 = .infinite negative) := by
  have hn : n ≠ 0 := by omega
  have hpos : (n.log2 : Int) - 52 = (unit n : Int) := by
    have := (Nat.le_log2 hn).mpr h
    rw [unit]
    omega
  have hrange := lt_beyond_iff h 970
  rw [limit]
  simp only [ofRatio, if_neg hn, exponentOf_whole hn, hpos, inUnits_nat, twoTo_eq, greatestExponent]
  by_cases hcarry : nearest n (2 ^ unit n) = 2 ^ 53
  · simp only [hcarry, if_true] at hrange ⊢
    have hvalue : rounded n = 2 ^ 52 * 2 ^ (unit n + 1) := by
      rw [rounded, hcarry, Nat.pow_succ']
      omega
    constructor
    · intro hlt
      have := hrange.mp hlt
      rw [if_neg (by omega), hvalue]
      exact toInt?_finite negative (2 ^ 52) (unit n + 1)
    · intro hle
      have := mt hrange.mpr (Nat.not_lt.mpr hle)
      rw [if_pos (by omega)]
  · simp only [hcarry, if_false] at hrange ⊢
    constructor
    · intro hlt
      have := hrange.mp hlt
      rw [if_neg (by omega)]
      exact toInt?_finite negative _ (unit n)
    · intro hle
      have := mt hrange.mpr (Nat.not_lt.mpr hle)
      rw [if_pos (by omega)]

theorem ofRatio_whole (negative : Bool) (n : Nat) :
    (n < limit → (ofRatio negative n 1).toInt? = some (signed negative (rounded n))) ∧
      (limit ≤ n → ofRatio negative n 1 = .infinite negative) := by
  rcases Nat.lt_or_ge n (2 ^ 53) with h | h
  · have hlimit : n < limit := lt_limit_of_isWhole (isWhole_of_le (Nat.le_of_lt h))
    rw [rounded_of_lt h]
    exact ⟨fun _ => ofRatio_small negative h, fun hle => absurd hlimit (Nat.not_lt.mpr hle)⟩
  · exact ofRatio_large negative h

end CommandShell.Binary64
