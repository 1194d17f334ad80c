import CommandShell.Proofs.Token.Separator
import CommandShell.Session.Line

/-!
The statements of a line in two parts. A separator between the parts keeps their statements apart,
and those of the second part are the same as by themselves, only farther on.
-/

set_option autoImplicit false

namespace CommandShell

theorem Token.sealed_of_read {a : Text} {c : Char} (hc : c = ';' ∨ c = '\n') {ts : List Token}
    {t : Token} {n : Nat} (h : read true (a ++ [c]) = .ok (ts ++ [t, finish n]))
    (ht : t.kind = .operator ∧ t.value = [c] ∧ t.start = a.length) :
    Sealed (a ++ [c]) ∧ ofText (a ++ [c]) = ts ++ [t] := by
  have hall : ofText (a ++ [c]) = ts ++ [t] := ofText_of_read (n := n) (by simpa using h)
  refine ⟨.of_separator (by rw [hall, List.getLast?_concat]) ⟨ht.1, ht.2.1⟩ ?_ ?_, hall⟩
  · rw [ht.2.2, List.length_append, List.length_singleton]
  · rcases hc with rfl | rfl <;> decide

namespace Statement

variable {ts us : List Token} {t : Token}

theorem exists_split (ts : List Token) :
    ∃ tokens later, ∀ before, split before ts = (before, tokens) :: later := by
  induction ts with
  | nil => exact ⟨[], [], fun _ => rfl⟩
  | cons t ts ih =>
    obtain ⟨tokens, later, ih⟩ := ih
    by_cases hend : t.kind = .endOfInput
    · exact ⟨[], [], fun before => by simp [split, hend]⟩
    · by_cases hs : isSeparator t = true
      · exact ⟨[], split (some t.value) ts, fun before => by simp [split, hend, hs]⟩
      · exact ⟨t :: tokens, later, fun before => by simp [split, hend, hs, ih]⟩

theorem split_separator (ht : isSeparator t = true) (before : Option Text) (ts : List Token) :
    split before (t :: ts) = (before, []) :: split (some t.value) ts := by
  have hend : t.kind ≠ .endOfInput := by
    intro hend
    simp [isSeparator, hend] at ht
  simp [split, hend, ht]

theorem split_token (hend : t.kind ≠ .endOfInput) (ht : ¬ isSeparator t = true)
    {before : Option Text} {tokens : List Token} {later : List (Option Text × List Token)}
    (h : split before ts = (before, tokens) :: later) :
    split before (t :: ts) = (before, t :: tokens) :: later := by
  simp [split, hend, ht, h]

theorem exists_segments (ts : List Token) :
    ∃ tokens later, ∀ start, segments start ts = (start, tokens) :: later := by
  induction ts with
  | nil => exact ⟨[], [], fun _ => rfl⟩
  | cons t ts ih =>
    obtain ⟨tokens, later, ih⟩ := ih
    by_cases hend : t.kind = .endOfInput
    · exact ⟨[], [], fun start => by simp [segments, hend]⟩
    · by_cases hb : isBoundary t = true
      · exact ⟨[], segments t.stop ts, fun start => by simp [segments, hend, hb]⟩
      · exact ⟨t :: tokens, later, fun start => by simp [segments, hend, hb, ih]⟩

theorem split_append (h : ∀ u ∈ ts, u.kind ≠ .endOfInput) (ht : isSeparator t = true)
    (before : Option Text) (us : List Token) :
    split before (ts ++ t :: us) = split before ts ++ split (some t.value) us := by
  induction ts generalizing before with
  | nil => exact split_separator ht before us
  | cons u ts ih =>
    obtain ⟨tokens, later, hts⟩ := exists_split ts
    have hrest := ih fun v hv => h v (List.mem_cons_of_mem u hv)
    have hu := h u (List.mem_cons_self ..)
    by_cases hs : isSeparator u = true
    · rw [List.cons_append, split_separator hs, split_separator hs, hrest, List.cons_append]
    · have hall := hrest before
      rw [hts, List.cons_append] at hall
      rw [List.cons_append, split_token hu hs hall, split_token hu hs (hts before),
        List.cons_append]

theorem segments_append (h : ∀ u ∈ ts, u.kind ≠ .endOfInput) (ht : isBoundary t = true)
    (start : Nat) (us : List Token) :
    segments start (ts ++ t :: us) = segments start ts ++ segments t.stop us := by
  have hkind : t.kind ≠ .endOfInput := by
    intro hend
    simp [isBoundary, hend] at ht
  induction ts generalizing start with
  | nil => simp [segments, hkind, ht]
  | cons u ts ih =>
    obtain ⟨tokens, later, hts⟩ := exists_segments ts
    have hrest := ih fun v hv => h v (List.mem_cons_of_mem u hv)
    have hu := h u (List.mem_cons_self ..)
    by_cases hb : isBoundary u = true
    · simp [segments, hu, hb, hrest]
    · simp [segments, hu, hb, hrest, hts]

theorem split_finish (before : Option Text) (n : Nat) (ts : List Token) :
    split before (ts ++ [Token.finish n]) = split before ts := by
  induction ts generalizing before with
  | nil => rfl
  | cons t ts ih => simp only [List.cons_append, split, ih]

theorem split_shift (n : Nat) (before : Option Text) (ts : List Token) :
    split before (ts.map (Token.shift n)) =
      (split before ts).map fun statement => (statement.1, statement.2.map (Token.shift n)) := by
  induction ts generalizing before with
  | nil => rfl
  | cons t ts ih =>
    obtain ⟨tokens, later, hts⟩ := exists_split ts
    have hshift : isSeparator (t.shift n) = isSeparator t := rfl
    by_cases hend : t.kind = .endOfInput
    · simp [split, hend]
    · by_cases hs : isSeparator t = true
      · simp [split, hend, hshift, hs, ih]
      · simp [split, hend, hshift, hs, ih, hts]

theorem segments_shift (n start : Nat) (ts : List Token) :
    segments (start + n) (ts.map (Token.shift n)) =
      (segments start ts).map fun segment => (segment.1 + n, segment.2.map (Token.shift n)) := by
  induction ts generalizing start with
  | nil => rfl
  | cons t ts ih =>
    obtain ⟨tokens, later, hts⟩ := exists_segments ts
    have hshift : isBoundary (t.shift n) = isBoundary t := rfl
    by_cases hend : t.kind = .endOfInput
    · simp [segments, hend]
    · by_cases hb : isBoundary t = true
      · simp [segments, hend, hshift, hb, ih]
      · simp [segments, hend, hshift, hb, ih, hts]

/-- The statement under a cursor behind a separator is the one of the second part by itself. -/
theorem at?_append (h : ∀ u ∈ ts, u.kind ≠ .endOfInput) (ht : isBoundary t = true)
    (us : List Token) (cursor : Nat) :
    at? (ts ++ t :: us.map (Token.shift t.stop)) ((cursor + t.stop : Nat) : Int) =
      (at? us cursor).map (Token.shift t.stop) := by
  obtain ⟨tokens, later, hus⟩ := exists_segments us
  have hbehind := segments_shift t.stop 0 us
  rw [Nat.zero_add] at hbehind
  have hle (segment : Nat × List Token) :
      decide (((segment.1 + t.stop : Nat) : Int) ≤ ((cursor + t.stop : Nat) : Int)) =
        decide ((segment.1 : Int) ≤ cursor) := by
    rw [decide_eq_decide]
    omega
  simp only [at?, segments_append h ht, hbehind, List.filter_append, List.filter_map,
    Function.comp_def, hle, List.getLast?_append, List.getLast?_map]
  -- the first statement of the second part begins before the cursor
  cases hlast : ((segments 0 us).filter fun segment => (segment.1 : Int) ≤ cursor).getLast? with
  | none =>
    exfalso
    rw [hus, List.getLast?_eq_none_iff, List.filter_eq_nil_iff] at hlast
    simpa using hlast (0, tokens) (by simp)
  | some segment => rfl

end Statement

end CommandShell
