import CommandShell.Text.Basic

/-!
The pieces of a text and what joins them again.
-/

set_option autoImplicit false

namespace CommandShell.Text

theorem pieces_eq_splitOnP (cutsAt : Char → Bool) (s : Text) :
    pieces cutsAt s = s.splitOnP cutsAt := by
  induction s with
  | nil => rfl
  | cons c s ih =>
    rw [pieces, ih, List.splitOnP_cons_eq_if_modifyHead]
    obtain ⟨piece, rest, hsplit⟩ := List.exists_cons_of_ne_nil (List.splitOnP_ne_nil cutsAt s)
    rw [hsplit, List.modifyHead_cons]

theorem pieces_join {c : Char} {parts : List Text} (h : ∀ part ∈ parts, c ∉ part)
    (hne : parts ≠ []) : pieces (· == c) (join [c] parts) = parts := by
  rw [pieces_eq_splitOnP, ← List.splitOn_eq_splitOnP]
  exact List.splitOn_intercalate c h hne

theorem join_pieces (c : Char) (s : Text) : join [c] (pieces (· == c) s) = s := by
  rw [pieces_eq_splitOnP, ← List.splitOn_eq_splitOnP]
  exact List.intercalate_splitOn c

theorem flatten_pieces (cutsAt : Char → Bool) (s : Text) :
    (pieces cutsAt s).flatten = s.filter fun c => !cutsAt c := by
  induction s with
  | nil => rfl
  | cons c s ih =>
    rw [pieces]
    cases hc : cutsAt c with
    | true => simp [hc, ih]
    | false =>
      rw [List.filter_cons_of_pos (by simp [hc]), ← ih]
      cases pieces cutsAt s <;> simp

end CommandShell.Text
