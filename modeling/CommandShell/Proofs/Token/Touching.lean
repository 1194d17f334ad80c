import CommandShell.Proofs.Token.Modes
import CommandShell.Proofs.Token.Parameter
import CommandShell.Proofs.Token.Tiling

/-!
Tokens that touch. A token that begins where another ends is scanned from what the other left, and a
word leaves only what no word can begin with; so nothing but an operator touches a word.
-/

set_option autoImplicit false

namespace CommandShell

open Sign

theorem Word.scan_rest_head (previous : Option Char) (s : Text) :
    ∀ d ∈ (scan previous s).rest.head?, isBlank d = true ∨ isOperator d = true := by
  fun_induction scan previous s with
  | case1 => simp [nothing]
  | case2 previous c rest hc =>
    rintro d ⟨⟩
    rcases Bool.or_eq_true_iff.mp hc with hblank | hline
    · exact .inl hblank
    · exact .inr (beq_iff_eq.mp hline ▸ rfl)
  | case4 previous c rest _ hoperator =>
    rintro d ⟨⟩
    exact .inr hoperator
  | case5 => simp
  | case3 _ _ _ _ _ _ ih | case6 _ _ _ _ _ _ _ ih | case11 _ _ _ _ _ _ _ _ ih => exact ih
  | case7 _ _ _ _ _ _ _ q hclosed ih | case9 _ _ _ _ _ _ _ _ q hclosed ih => exact ih
  | case8 previous c rest _ _ _ _ q hopen =>
    rw [show q.rest = [] from Quotation.verbatim_rest_of_open (by simpa using hopen)]
    simp
  | case10 previous c rest _ _ _ _ _ q hopen =>
    rw [show q.rest = [] from Quotation.expandable_rest_of_open (by simpa using hopen)]
    simp

namespace Lexeme

variable {start : Nat} {s : Text} {p q : Placed}

theorem start_le_of_mem (h : p ∈ scanAll start s) : start ≤ p.1 ∧ 0 < p.2.raw.length := by
  have hbounds := (scanAll_tiles start s).bounds (Token.ofLexeme p) (List.mem_map_of_mem h)
  exact ⟨hbounds.1, Nat.lt_add_right_iff_pos.mp hbounds.2.1⟩

theorem eq_scan_of_start (h : p ∈ scanAll start s) (hstart : p.1 = start) :
    ∃ c rest, s = c :: rest ∧ isBlank c = false ∧ p.2 = scan c rest := by
  revert h
  fun_cases scanAll start s with
  | case1 => simp
  | case2 c rest hb =>
    intro h
    have := (start_le_of_mem h).1
    omega
  | case3 c rest hb hc =>
    intro h
    have := (start_le_of_mem h).1
    omega
  | case4 c rest hb hc =>
    intro h
    rcases List.mem_cons.mp h with rfl | h
    · exact ⟨c, rest, rfl, by simpa using hb, rfl⟩
    · have hpos : 0 < (scan c rest).raw.length := scan_raw_length_pos (by simpa using hb)
      have := (start_le_of_mem h).1
      omega

theorem eq_scan_of_touching (hp : p ∈ scanAll start s) (hq : q ∈ scanAll start s)
    (htouch : q.1 = p.1 + p.2.raw.length) :
    ∃ c rest, p.2.rest = c :: rest ∧ isBlank c = false ∧ q.2 = scan c rest := by
  fun_induction scanAll start s with
  | case1 => cases hp
  | case2 _ _ _ _ ih | case3 _ _ _ _ _ ih => exact ih hp hq
  | case4 start c rest hb hc ih =>
    have hpos : 0 < (scan c rest).raw.length := scan_raw_length_pos (by simpa using hb)
    rcases List.mem_cons.mp hq with rfl | hq
    · have hle : start ≤ p.1 ∧ 0 < p.2.raw.length := by
        rcases List.mem_cons.mp hp with rfl | hp
        · exact ⟨Nat.le_refl _, hpos⟩
        · exact ⟨Nat.le_trans (Nat.le_add_right _ _) (start_le_of_mem hp).1, (start_le_of_mem hp).2⟩
      simp only at htouch
      omega
    · rcases List.mem_cons.mp hp with rfl | hp
      · exact eq_scan_of_start hq htouch
      · exact ih hp hq

theorem eq_word_of_kind {c : Char} {rest : Text}
    (h : (scan c rest).kind = .bare ∨ (scan c rest).kind = .number) :
    scan c rest = word (c :: rest) := by
  revert h
  fun_cases scan c rest with
  | case1 => simp [operator_kind]
  | case2 | case3 => simp [quoted]
  | case4 => simp [reference]
  | case5 | case7 => exact fun _ => rfl
  | case6 => simp [parameter_kind]

end Lexeme

namespace Token

variable {s : Text} {t u : Token}

theorem exists_scan_of_touching (ht : t ∈ ofText s) (hu : u ∈ ofText s)
    (htouch : u.start = t.stop) :
    ∃ c rest d more, t.text = (Lexeme.scan c rest).raw ∧ t.kind = (Lexeme.scan c rest).kind ∧
      t.value = (Lexeme.scan c rest).value ∧ (Lexeme.scan c rest).rest = d :: more ∧
      isBlank d = false ∧ u.kind = (Lexeme.scan d more).kind := by
  obtain ⟨p, hp, rfl⟩ := List.mem_map.mp ht
  obtain ⟨q, hq, rfl⟩ := List.mem_map.mp hu
  obtain ⟨d, more, hrest, hblank, hscan⟩ := Lexeme.eq_scan_of_touching hp hq htouch
  obtain ⟨c, rest, -, hl⟩ := Lexeme.exists_scan_of_mem hp
  rw [hl] at hrest
  refine ⟨c, rest, d, more, ?_, ?_, ?_, hrest, hblank, congrArg Lexeme.kind hscan⟩ <;>
    simp only [ofLexeme, hl]

theorem kind_behind_word {previous : Option Char} {w more : Text} {d : Char}
    (hrest : (Word.scan previous w).rest = d :: more) (hblank : isBlank d = false) :
    (Lexeme.scan d more).kind = .operator := by
  rcases Word.scan_rest_head previous w d (by rw [hrest]; rfl) with hd | hd
  · rw [hblank] at hd
    cases hd
  · rw [Lexeme.scan, if_pos hd]
    exact Lexeme.operator_kind d more

theorem operator_of_touching_word (ht : t ∈ ofText s) (hu : u ∈ ofText s)
    (hk : t.kind = .bare ∨ t.kind = .number) (htouch : u.start = t.stop) : u.kind = .operator := by
  obtain ⟨c, rest, d, more, -, hkind, -, hrest, hblank, hnext⟩ :=
    exists_scan_of_touching ht hu htouch
  rw [hkind] at hk
  rw [Lexeme.eq_word_of_kind hk] at hrest
  rw [hnext, kind_behind_word hrest hblank]

theorem text_of_touched_parameter (ht : t ∈ ofText s) (hu : u ∈ ofText s)
    (hk : t.kind = .parameter) (htouch : u.start = t.stop) (hoperand : u.kind ≠ .operator) :
    ∃ dash, t.text = dash :: t.value := by
  obtain ⟨c, rest, d, more, htext, hkind, hvalue, hrest, hblank, hnext⟩ :=
    exists_scan_of_touching ht hu htouch
  rw [hkind] at hk
  rw [(Lexeme.scan_eq_parameter hk).1] at htext hvalue hrest
  rw [htext, hvalue]
  revert hrest
  fun_cases Lexeme.parameter c rest with
  | case1 | case3 => exact fun _ => ⟨c, rfl⟩
  | case2 =>
    -- behind a colon comes a word, and only an operator touches that
    exact fun hrest => absurd (hnext.trans (kind_behind_word hrest hblank)) hoperand

end Token

end CommandShell
