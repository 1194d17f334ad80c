import CommandShell.Number.Reading

/-!
Which numbers are positive, and which texts are read as no number. What is no number is neither
positive nor zero or below.
-/

set_option autoImplicit false

namespace CommandShell.Binary64

def value? : Binary64 → Option Rat
  | .finite negative m e => some (Numeral.signed negative m * 2 ^ e)
  | _ => none

def Positive (x : Binary64) : Prop := x = .infinite false ∨ ∃ q, x.value? = some q ∧ 0 < q

theorem finite_positive (negative : Bool) (m : Nat) (e : Int) :
    (finite negative m e).Positive ↔ negative = false ∧ m ≠ 0 := by
  have hunit : (0 : Rat) < 2 ^ e := Rat.zpow_pos (by decide)
  have hvalue : (finite negative m e).Positive ↔ 0 < (Numeral.signed negative m * 2 ^ e : Rat) := by
    simp [Positive, value?]
  rw [hvalue, Rat.mul_pos_iff_of_pos_right hunit, Rat.intCast_pos]
  cases negative with
  | false => simp [Numeral.signed, Nat.pos_iff_ne_zero]
  | true => exact iff_of_false (by simp [Numeral.signed]) (by simp)

theorem isPositive_iff (x : Binary64) : x.isPositive = true ↔ x.Positive := by
  cases x with
  | nan => simp [isPositive, Positive, value?]
  | infinite negative => simp [isPositive, Positive, value?]
  | finite negative m e => simp [isPositive, finite_positive]

theorem not_positive_nan : ¬ nan.Positive := by simp [Positive, value?]

theorem isAtMostZero_eq_false {x : Binary64} : x.isAtMostZero = false ↔ x.Positive ∨ x = nan := by
  rw [← isPositive_iff]
  cases x <;> simp [isAtMostZero, isPositive]

theorem ofRatio_ne_nan (negative : Bool) (num den : Nat) : ofRatio negative num den ≠ nan := by
  unfold ofRatio
  split
  · exact Binary64.noConfusion
  · dsimp only
    split <;> split <;> exact Binary64.noConfusion

theorem ofDecimal_ne_nan (negative : Bool) (digits count : Nat) (power : Int) :
    ofDecimal negative digits count power ≠ nan := by
  unfold ofDecimal
  repeat' split
  · exact Binary64.noConfusion
  · exact Binary64.noConfusion
  · exact Binary64.noConfusion
  · exact ofRatio_ne_nan _ _ _

theorem decimalAt_ne_nan {negative : Bool} {s rest : Text} {x : Binary64}
    (h : decimalAt negative s = some (x, rest)) : x ≠ nan := by
  simp only [decimalAt, Option.bind_eq_bind, Option.bind_eq_some_iff] at h
  obtain ⟨⟨whole, afterWhole⟩, -, ⟨part, afterPart⟩, -, h⟩ := h
  split at h
  · cases h
  · obtain ⟨⟨exponent, afterExponent⟩, -, h⟩ := Option.bind_eq_some_iff.mp h
    obtain ⟨rfl, -⟩ := Prod.mk.inj (Option.some.inj h)
    exact ofDecimal_ne_nan _ _ _ _

def IsNanWord (s : Text) : Prop := s.map Char.toLower = "nan".toList

/-- Texts that are read as no number; blanks around them and a sign do not matter. -/
def SpellsNan (s : Text) : Prop :=
  ∃ sign ∈ [[], ['+'], ['-']], ∃ word, IsNanWord word ∧
    Text.stripBy Numeral.isBlank s = sign ++ word

theorem named?_eq_nan {negative : Bool} {s : Text} :
    named? negative s = some nan ↔ IsNanWord s := by
  unfold named? IsNanWord
  dsimp only
  split
  · rename_i hnan
    exact iff_of_true rfl hnan
  · rename_i hnan
    split
    · exact iff_of_false (fun h => nomatch Option.some.inj h) hnan
    · exact iff_of_false (fun h => nomatch h) hnan

theorem sign_isNanWord {s : Text} (h : IsNanWord s) : Numeral.sign s = (false, s) := by
  unfold Numeral.sign
  have hhead : s.head?.map Char.toLower = some 'n' := by
    rw [← List.head?_map, h]
    rfl
  split
  · exact absurd (Option.some.inj hhead) (by decide)
  · exact absurd (Option.some.inj hhead) (by decide)
  · rfl

theorem exists_sign (s : Text) :
    ∃ sign ∈ [[], ['+'], ['-']], s = sign ++ (Numeral.sign s).2 := by
  unfold Numeral.sign
  split
  · exact ⟨['-'], by simp, rfl⟩
  · exact ⟨['+'], by simp, rfl⟩
  · exact ⟨[], by simp, rfl⟩

theorem read?_eq_nan {s : Text} : read? s = some nan ↔ SpellsNan s := by
  have hword : read? s = some nan ↔
      IsNanWord (Numeral.sign (Text.stripBy Numeral.isBlank s)).2 := by
    unfold read?
    dsimp only
    split
    · rename_i x hnamed
      rw [← hnamed, named?_eq_nan]
    · rename_i hnamed
      refine iff_of_false ?_ fun hnan => ?_
      · split
        · rename_i x hdecimal
          exact fun h => decimalAt_ne_nan hdecimal (Option.some.inj h)
        · exact fun h => nomatch h
      · rw [named?_eq_nan.mpr hnan] at hnamed
        cases hnamed
  rw [hword]
  constructor
  · intro hnan
    obtain ⟨sign, hsign, heq⟩ := exists_sign (Text.stripBy Numeral.isBlank s)
    exact ⟨sign, hsign, _, hnan, heq⟩
  · rintro ⟨sign, hsign, word, hnan, heq⟩
    simp only [List.mem_cons, List.not_mem_nil, or_false] at hsign
    rw [heq]
    rcases hsign with rfl | rfl | rfl
    · rwa [List.nil_append, sign_isNanWord hnan]
    · exact hnan
    · exact hnan

end CommandShell.Binary64
