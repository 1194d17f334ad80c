import CommandShell.Proofs.Token.Locality

/-!
A dash and a name make a parameter. What stands behind the name decides whether there is an inline
value: a colon begins one, two colons do not.
-/

set_option autoImplicit false

namespace CommandShell

namespace Sign

/-- A name that can follow a dash. -/
def isParameterName : Text → Bool
  | [] => false
  | c :: rest => startsParameter c && rest.all isParameterChar

theorem startsParameter_of_isParameterName {name tail : Text} (h : isParameterName name = true) :
    (name ++ tail).head?.any startsParameter = true := by
  cases name with
  | nil => cases h
  | cons c rest => exact (Bool.and_eq_true_iff.mp h).1

theorem isParameterChar_of_mem {name : Text} (h : isParameterName name = true) :
    ∀ c ∈ name, isParameterChar c = true := by
  cases name with
  | nil => cases h
  | cons c rest =>
    simp only [isParameterName, Bool.and_eq_true, List.all_eq_true] at h
    exact List.forall_mem_cons.mpr ⟨isParameterChar_of_startsParameter h.1, h.2⟩

theorem run_name {name : Text} (hname : ∀ c ∈ name, isParameterChar c = true) (tail : Text)
    (htail : tail.head?.any isParameterChar = false) :
    (name ++ tail).takeWhile isParameterChar = name ∧
      (name ++ tail).dropWhile isParameterChar = tail := by
  have hself : name.takeWhile isParameterChar = name := by
    simpa using @List.takeWhile_append_of_pos _ isParameterChar name [] hname
  have hrun := run_replace name htail
  rwa [hself] at hrun

theorem isDash_hyphen : isDash '-' = true := rfl

theorem eq_of_isDash {c : Char} (h : isDash c = true) :
    c = '-' ∨ c = '–' ∨ c = '—' ∨ c = '―' := by
  simp only [isDash, Bool.or_eq_true, beq_iff_eq, or_assoc] at h
  exact h.imp_right (Or.imp (fun h => Char.toNat_inj.mp h)
    (Or.imp (fun h => Char.toNat_inj.mp h) fun h => Char.toNat_inj.mp h))

end Sign

open Sign

namespace Lexeme

theorem scan_of_isDash {dash : Char} (hdash : isDash dash = true) {s : Text}
    (hs : s.head?.any startsParameter = true) : scan dash s = parameter dash s := by
  have hother : isOperator dash = false ∧ isSingleQuote dash = false ∧
      isDoubleQuote dash = false ∧ (dash == '$') = false := by
    rcases eq_of_isDash hdash with rfl | rfl | rfl | rfl <;> decide +kernel
  obtain ⟨ho, hsingle, hdouble, hr⟩ := hother
  rw [scan, ho, hsingle, hdouble, hr, hdash, hs]
  rfl

theorem scan_eq_parameter {c : Char} {rest : Text} (h : (scan c rest).kind = .parameter) :
    scan c rest = parameter c rest ∧ isDash c = true ∧
      rest.head?.any startsParameter = true := by
  have hword := word_kind (c :: rest)
  revert h
  fun_cases scan c rest with
  | case1 => simp [operator_kind]
  | case2 | case3 => simp [quoted]
  | case4 => simp [reference]
  | case5 | case7 => rcases hword with h | h <;> simp [h]
  | case6 ho hs hd hr hp => exact fun _ => ⟨rfl, Bool.and_eq_true_iff.mp hp⟩

theorem parameter_value (dash : Char) (s : Text) :
    (parameter dash s).value = s.takeWhile isParameterChar := by
  fun_cases parameter dash s <;> rfl

theorem exists_colon_of_parameter {c : Char} {rest : Text} (h : (scan c rest).kind = .parameter)
    (hlt : (scan c rest).value.length + 1 < (scan c rest).raw.length) :
    ∃ typed, (scan c rest).raw = c :: (scan c rest).value ++ ':' :: typed := by
  rw [(scan_eq_parameter h).1] at hlt ⊢
  revert hlt
  fun_cases parameter c rest with
  | case1 => simp
  | case2 => exact fun _ => ⟨_, rfl⟩
  | case3 => simp

theorem exists_value_of_parameter {c : Char} {rest : Text} (h : (scan c rest).kind = .parameter) :
    ∃ d name, (scan c rest).value = d :: name ∧ rest.head? = some d := by
  obtain ⟨hscan, -, hstart⟩ := scan_eq_parameter h
  cases rest with
  | nil => cases hstart
  | cons d rest =>
    rw [hscan, parameter_value, List.takeWhile_cons,
      if_pos (isParameterChar_of_startsParameter hstart)]
    exact ⟨d, _, rfl, rfl⟩

def ofName (dash : Char) (name tail : Text) : Lexeme :=
  ⟨.parameter, dash :: name, name, none, true, none, tail⟩

section

variable {dash : Char} {name w : Text}

theorem scan_name (hdash : isDash dash = true) (h : isParameterName name = true) (tail : Text) :
    scan dash (name ++ ' ' :: tail) = ofName dash name (' ' :: tail) := by
  have hblank : isParameterChar ' ' = false := by decide +kernel
  rw [scan_of_isDash hdash (startsParameter_of_isParameterName h)]
  exact parameter_of_run (run_name (isParameterChar_of_mem h) (' ' :: tail) hblank) rfl

/-- Two colons end a name and begin no value. -/
theorem scan_double_colon (hdash : isDash dash = true) (h : isParameterName name = true)
    (tail : Text) :
    scan dash (name ++ ':' :: ':' :: tail) = ofName dash name (':' :: ':' :: tail) := by
  have hcolon : isParameterChar ':' = false := by decide +kernel
  have hrun := run_name (isParameterChar_of_mem h) (':' :: ':' :: tail) hcolon
  rw [scan_of_isDash hdash (startsParameter_of_isParameterName h)]
  simp only [parameter, hrun]
  rfl

theorem scan_colon (hdash : isDash dash = true) (h : isParameterName name = true)
    (hw : w.head? ≠ some ':') :
    let word := Word.scan none w
    scan dash (name ++ ':' :: w) = ⟨.parameter, dash :: name ++ ':' :: word.raw, name,
      if word.raw.isEmpty then none else some word.value, true,
      word.opened.map (· + name.length + 2, .quote), word.rest⟩ := by
  have hcolon : isParameterChar ':' = false := by decide +kernel
  have hrun := run_name (isParameterChar_of_mem h) (':' :: w) hcolon
  rw [scan_of_isDash hdash (startsParameter_of_isParameterName h)]
  simp only [parameter, hrun, beq_iff_eq, if_neg hw]

theorem isParameterName_of_parameter {c : Char} {rest : Text}
    (h : (scan c rest).kind = .parameter) : isParameterName (scan c rest).value = true := by
  obtain ⟨hscan, -, hstart⟩ := scan_eq_parameter h
  rw [hscan, parameter_value]
  cases rest with
  | nil => cases hstart
  | cons d rest =>
    rw [List.takeWhile_cons, if_pos (isParameterChar_of_startsParameter hstart)]
    exact Bool.and_eq_true_iff.mpr ⟨hstart, List.all_takeWhile⟩

end

end Lexeme

end CommandShell
