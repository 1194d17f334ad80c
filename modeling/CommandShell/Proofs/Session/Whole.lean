import CommandShell.Proofs.Number.Digits
import CommandShell.Proofs.Session.Assignment

/-!
A whole number that is assigned to a variable. It is read as a number of the binary64 format before
it is stored, so that the variable holds the nearest whole number of that format: the number itself
just when 53 bits and the zeros behind them are enough for it.
-/

set_option autoImplicit false

namespace CommandShell

open Numeral (Written signed)
open Binary64 (IsWhole rounded limit)

namespace Session

variable {σ : Type}

def stored (w : Written) : Datum :=
  if w.magnitude < limit then .integer (signed w.negative (rounded w.magnitude))
  else .number (.infinite w.negative)

theorem literal_written (w : Written) (start : Nat) :
    literal ⟨.number, w.text, w.text, start, none, true⟩ = stored w := by
  have hpoint : w.text.contains '.' = false := by
    refine Bool.eq_false_iff.mpr fun h => ?_
    have := w.isWholeChar_of_mem '.' (List.contains_iff_mem.mp h)
    revert this
    decide
  have hwhole := Binary64.ofRatio_whole w.negative w.magnitude
  simp only [literal, if_true, Binary64.read?_text, stored]
  by_cases hlimit : w.magnitude < limit
  · rw [if_pos hlimit, hwhole.1 hlimit]
    simp only [hpoint, Bool.false_eq_true, if_false]
  · rw [if_neg hlimit, hwhole.2 (Nat.not_lt.mp hlimit)]
    rfl

theorem stored_eq_iff (w : Written) : stored w = .integer w.toInt ↔ IsWhole w.magnitude := by
  rw [stored, Written.toInt]
  by_cases hlimit : w.magnitude < limit
  · rw [if_pos hlimit, ← Binary64.rounded_eq_iff hlimit]
    refine ⟨fun h => ?_, fun h => by rw [h]⟩
    have hnat := congrArg Int.natAbs (Datum.integer.inj h)
    rwa [Numeral.signed_natAbs, Numeral.signed_natAbs] at hnat
  · rw [if_neg hlimit]
    exact ⟨nofun, fun h => absurd (Binary64.lt_limit_of_isWhole h) hlimit⟩

/-- A whole number is assigned as the nearest whole number of the format, or as infinite when it is
out of range. It is stored as it is written just when it is a number of the format, as all are up to
two to the 53. -/
theorem runLine_whole {u : Text} {r : Token} (hu : Token.IsValue u r) (hr : r.kind = .reference)
    (w : Written) (shell : Shell σ) (session : Session σ) :
    let z := w.toInt
    ∃ d, runLine shell session (assigning u w.text) = .printed none (session.put r.value d) ∧
      (d = .integer z ↔ IsWhole z.natAbs) ∧ (z.natAbs ≤ 2 ^ 53 → d = .integer z) ∧
      (z.natAbs < limit → ∃ x, d = .integer x ∧ IsWhole x.natAbs ∧
        ∀ y : Int, IsWhole y.natAbs → (x - z).natAbs ≤ (y - z).natAbs) ∧
      (limit ≤ z.natAbs → d = .number (.infinite (decide (z < 0)))) := by
  intro z
  have hz : z.natAbs = w.magnitude := Numeral.signed_natAbs _ _
  have hrun := runLine_assigning hu hr ⟨Token.scanStrict_written w, rfl, rfl⟩ shell session
  have hexact := stored_eq_iff w
  refine ⟨stored w, hrun.trans (by rw [literal_written]), ?_⟩
  rw [hz]
  refine ⟨hexact, fun h => hexact.mpr (Binary64.isWhole_of_le h), fun h => ?_, fun h => ?_⟩
  · refine ⟨_, if_pos h, ?_, fun y hy => Binary64.signed_rounded_le _ _ hy⟩
    rw [Numeral.signed_natAbs]
    exact Binary64.isWhole_rounded h
  · have hzero : 0 < limit := Binary64.lt_limit_of_isWhole (Binary64.isWhole_of_le (by decide))
    have hnegative : decide (z < 0) = w.negative :=
      Numeral.signed_lt_zero (Nat.lt_of_lt_of_le hzero h)
    rw [stored, if_neg (Nat.not_lt.mpr h), hnegative]

theorem runLine_whole_n :
    let session : Session (Unit × List Call) := start [] ((), [])
    ∃ d, runLine (goShell []) session "$n = -9007199254740993".toList =
        .printed none (session.put ['n'] d) ∧ d ≠ .integer (-9007199254740993) ∧
      ∃ x, d = .integer x ∧ (x + 9007199254740993).natAbs = 1 := by
  intro session
  let w : Written := ⟨['-'], "9007199254740993".toList, by decide, by decide,
    List.all_eq_true.mp (by decide)⟩
  have hz : w.toInt = -9007199254740993 := by decide +kernel
  have hu : Token.IsValue "$n".toList ⟨.reference, "$n".toList, ['n'], 0, none, false⟩ :=
    .of_scan (by decide +kernel) (by decide +kernel) rfl rfl
  obtain ⟨d, hrun, hexact, -, hnear, -⟩ := runLine_whole hu rfl w (goShell []) session
  rw [hz] at hexact hnear
  have hodd : ¬ IsWhole (2 ^ 53 + 1) := Binary64.not_isWhole_of_odd (by decide) (by decide)
  have hbelow : 2 ^ 53 + 1 < limit := by
    have := Binary64.lt_limit_of_isWhole
      (Binary64.isWhole_iff.mpr ⟨1, 54, by decide, by decide, rfl⟩)
    omega
  obtain ⟨x, rfl, hwhole, hbest⟩ := hnear hbelow
  have hne := mt hexact.mp hodd
  have hone := hbest (-9007199254740992) (Binary64.isWhole_of_le (by decide))
  refine ⟨_, hrun, hne, x, rfl, ?_⟩
  have hx : x ≠ -9007199254740993 := fun h => hne (h ▸ rfl)
  omega

/-- The first whole number that is no number of the format. -/
theorem runLine_whole_rounded :
    let session : Session (Unit × List Call) := start [] ((), [])
    (runLine (goShell []) session "$n = 9007199254740993".toList).session.vars.map
      (fun entry => (entry.1, entry.2.print.toOption)) =
        [(['n'], some "9007199254740992".toList)] := by
  decide +kernel

end Session

end CommandShell
