import CommandShell.Text.Lowercase

/-!
Lower case leaves points where they are and makes no others.
-/

set_option autoImplicit false

namespace CommandShell.Text

theorem lowerRanges_above : ∀ r ∈ lowerRanges, (47 : Int) ≤ r.first + r.distance := by
  decide +kernel

theorem toLower_eq_point {c : Char} (hc : c.val < 128) : c.toLower = '.' ↔ c = '.' := by
  have hascii : ∀ n < 128, (Char.ofNat n).toLower = '.' ↔ Char.ofNat n = '.' := by decide +kernel
  have hlt : c.toNat < 128 := hc
  have h := hascii c.toNat hlt
  rwa [Char.ofNat_toNat] at h

theorem apply_lowerRanges_ne {c : Char} (hc : c ≠ '.') : CaseRange.apply lowerRanges c ≠ '.' := by
  rw [CaseRange.apply]
  split
  · rename_i r hr
    have habove := lowerRanges_above r (List.mem_of_find?_eq_some hr)
    have hholds : r.holds c.toNat = true := by simpa using List.find?_some hr
    have hfirst : r.first ≤ c.toNat := by
      simp only [CaseRange.holds, Bool.and_eq_true, decide_eq_true_eq] at hholds
      exact hholds.1.1
    intro he
    have hn := congrArg Char.toNat he
    by_cases hvalid : (c.toNat + r.distance).toNat.isValidChar
    · rw [Char.ofNat, dif_pos hvalid] at hn
      have hpoint : (c.toNat + r.distance).toNat = 46 := hn
      omega
    · rw [Char.ofNat, dif_neg hvalid] at hn
      cases hn
  · exact hc

theorem point_mem_lowerChar {c : Char} : '.' ∈ lowerChar c ↔ c = '.' := by
  rw [lowerChar]
  split
  · rename_i hc
    rw [List.mem_singleton, eq_comm]
    exact toLower_eq_point hc
  · rename_i hc
    have hne : c ≠ '.' := by
      rintro rfl
      exact hc (by decide)
    refine iff_of_false ?_ hne
    split
    · decide
    · rw [List.mem_singleton]
      exact (apply_lowerRanges_ne hne).symm

theorem point_mem_lowerFrom (before s : Text) : '.' ∈ lowerFrom before s ↔ '.' ∈ s := by
  induction s generalizing before with
  | nil => rfl
  | cons c rest ih =>
    rw [lowerFrom, List.mem_append, ih, List.mem_cons]
    refine or_congr_left ?_
    split
    · rename_i hsigma
      have hne : c ≠ '.' := by
        rintro rfl
        exact absurd hsigma (by decide)
      refine iff_of_false ?_ hne.symm
      split <;> decide
    · rw [point_mem_lowerChar, eq_comm]

theorem point_mem_lower {s : Text} : '.' ∈ lower s ↔ '.' ∈ s := point_mem_lowerFrom [] s

end CommandShell.Text
