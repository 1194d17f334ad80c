import CommandShell.Display.Ansi

/-!
What is left of a text without its escape sequences. A sequence is found where it begins, and what
stands behind a text can only go on a sequence with a bracket, an argument or a letter.
-/

set_option autoImplicit false

namespace CommandShell.Ansi

variable {s t : Text}

theorem strip_cons {c : Char} (hc : c ≠ escape) (s : Text) : strip (c :: s) = c :: strip s := by
  rw [strip, if_neg (by simpa using hc)]

theorem strip_sequence {rest : Text} (h : afterSequence? s = some rest) :
    strip (escape :: s) = strip rest := by
  rw [strip, if_pos (by simp)]
  split
  · simp_all
  · simp_all

theorem strip_escape (h : afterSequence? s = none) : strip (escape :: s) = escape :: strip s := by
  rw [strip, if_pos (by simp)]
  split
  · simp_all
  · rfl

theorem strip_append_left (h : escape ∉ s) (t : Text) : strip (s ++ t) = s ++ strip t := by
  induction s with
  | nil => rfl
  | cons c s ih =>
    obtain ⟨hc, hs⟩ := not_or.mp (mt List.mem_cons.mpr h)
    rw [List.cons_append, strip_cons (Ne.symm hc), ih hs, List.cons_append]

theorem strip_eq_self (h : escape ∉ s) : strip s = s := by
  simpa [strip] using strip_append_left h []

/-- A text that goes on no escape sequence in front of it. -/
def Apart (t : Text) : Prop := ∀ c ∈ t.head?, c ≠ '[' ∧ isArgument c = false ∧ c.isAlpha = false

theorem afterSequence?_of_ne {c : Char} (hc : c ≠ '[') (s : Text) :
    afterSequence? (c :: s) = none := by
  unfold afterSequence?
  split
  · rename_i heq
    exact absurd (List.cons.inj heq).1 hc
  · rfl

theorem afterSequence?_append (ht : Apart t) (s : Text) :
    afterSequence? (s ++ t) = (afterSequence? s).map (· ++ t) := by
  match s with
  | [] =>
    cases t with
    | nil => rfl
    | cons c t => exact afterSequence?_of_ne (ht c rfl).1 t
  | c :: s =>
    by_cases hc : c = '['
    · subst hc
      have hstop : t.dropWhile isArgument = t := by
        cases t with
        | nil => rfl
        | cons c t => rw [List.dropWhile_cons_of_neg (by simp [(ht c rfl).2.1])]
      simp only [List.cons_append, afterSequence?, List.dropWhile_append, hstop]
      cases s.dropWhile isArgument with
      | nil =>
        cases t with
        | nil => rfl
        | cons c t => simp [(ht c rfl).2.2]
      | cons c rest => cases hend : c.isAlpha <;> simp [hend]
    · rw [List.cons_append, afterSequence?_of_ne hc, afterSequence?_of_ne hc, Option.map_none]

theorem strip_append (ht : Apart t) (s : Text) : strip (s ++ t) = strip s ++ strip t := by
  fun_induction strip s with
  | case1 => rw [List.nil_append, List.nil_append]
  | case2 c s hc rest hrest ih =>
    obtain rfl := beq_iff_eq.mp hc
    have hboth : afterSequence? (s ++ t) = some (rest ++ t) := by
      rw [afterSequence?_append ht, hrest, Option.map_some]
    rw [List.cons_append, strip_sequence hboth, ih]
  | case3 c s hc hnone ih =>
    obtain rfl := beq_iff_eq.mp hc
    have hboth : afterSequence? (s ++ t) = none := by
      rw [afterSequence?_append ht, hnone, Option.map_none]
    rw [List.cons_append, strip_escape hboth, ih, List.cons_append]
  | case4 c s hc ih =>
    rw [List.cons_append, strip_cons (by simpa using hc), ih, List.cons_append]

theorem visibleLength_append (ht : Apart t) (s : Text) :
    visibleLength (s ++ t) = visibleLength s + visibleLength t := by
  rw [visibleLength, strip_append ht, List.length_append, visibleLength, visibleLength]

theorem visibleLength_append_left (h : escape ∉ s) (t : Text) :
    visibleLength (s ++ t) = s.length + visibleLength t := by
  rw [visibleLength, strip_append_left h, List.length_append, visibleLength]

theorem visibleLength_eq_length (h : escape ∉ s) : visibleLength s = s.length := by
  rw [visibleLength, strip_eq_self h]

end CommandShell.Ansi
