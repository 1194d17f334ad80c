import CommandShell.Token.Scan

/-!
Words that stand for themselves. Such a word is read the same wherever it stands, as long as a
blank, a line end or the end of the text follows it.
-/

set_option autoImplicit false

namespace CommandShell

open Sign

namespace Word

theorem scan_of_endsWord (previous : Option Char) {s : Text} (h : endsWord s = true) :
    scan previous s = nothing s := by
  cases s with
  | nil => rw [scan.eq_def]
  | cons c rest =>
    simp only [endsWord] at h
    rw [scan.eq_def]
    simp only [h, if_true]

theorem eq_raw_of_literal (previous : Option Char) (s : Text)
    (h : (scan previous s).literal = true) :
    (scan previous s).value = (scan previous s).raw ∧ (scan previous s).opened = none := by
  fun_induction scan previous s with
  | case1 | case2 | case4 => exact ⟨rfl, rfl⟩
  -- an escape, a quote or a dollar sign is not itself
  | case5 | case6 | case7 | case8 | case9 | case10 => cases h
  | case3 _ _ _ _ _ _ ih | case11 _ _ _ _ _ _ _ _ ih =>
    simp only [after, Bool.and_eq_true] at h ⊢
    obtain ⟨hvalue, hopened⟩ := ih h.2
    rw [hvalue, hopened, Option.map_none]
    exact ⟨rfl, rfl⟩

/-- The look-ahead for the end of the word sees the same before `tail` as at the end of the text. -/
theorem scan_append (previous : Option Char) (s : Text) {tail : Text}
    (h : (scan previous s).literal = true) (hr : (scan previous s).rest = [])
    (ht : endsWord tail = true) :
    scan previous (s ++ tail) = { scan previous s with rest := tail } := by
  fun_induction scan previous s with
  | case1 previous => exact scan_of_endsWord previous ht
  | case2 | case4 => cases hr
  | case5 | case6 | case7 | case8 | case9 | case10 => cases h
  | case3 previous c rest hb ho hs ih =>
    obtain ⟨hsign, hend⟩ := Bool.and_eq_true_iff.mp hs
    have hrest : rest = [] := by
      simpa only [after, scan_of_endsWord (some c) hend, nothing] using hr
    subst hrest
    have hs' : ((c == '<' || c == '>') && previous == some '!' && endsWord tail) = true :=
      Bool.and_eq_true_iff.mpr ⟨hsign, ht⟩
    rw [List.cons_append, List.nil_append, scan.eq_def]
    simp only [if_neg hb, if_pos ho, if_pos hs', scan_of_endsWord _ ht, scan_of_endsWord _ hend]
    rfl
  | case11 previous c rest hb ho hback hsingle hdouble ih =>
    simp only [after, Bool.and_eq_true] at h hr
    rw [List.cons_append, scan.eq_def]
    simp only [if_neg hb, if_neg ho, if_neg hback, if_neg hsingle, if_neg hdouble, ih h.2 hr]
    rfl

end Word

end CommandShell
