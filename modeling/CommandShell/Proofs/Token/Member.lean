import CommandShell.Proofs.Owner.Name
import CommandShell.Proofs.Quoting.Inline
import CommandShell.Proofs.Token.Parameter

/-!
The full spelling of a member behind a dash: a parameter as far as the first point or colon, and a
word that touches it. The word goes on to an inline value, quotes included.
-/

set_option autoImplicit false

namespace CommandShell

open Sign Owner

namespace Word

/-- The character before matters to the scan only where it is an exclamation mark. -/
theorem scan_previous {previous : Option Char} (h : previous ≠ some '!') (s : Text) :
    scan previous s = scan none s := by
  have hmark : (previous == some '!') = false := by simpa using h
  rw [scan.eq_def, scan.eq_def none]
  simp only [hmark, show ((none : Option Char) == some '!') = false from rfl]

theorem scan_append_ordinary {s : Text} (hs : ∀ c ∈ s, IsOrdinary c) (hmark : '!' ∉ s)
    {previous : Option Char} (h : previous ≠ some '!') (tail : Text) :
    scan previous (s ++ tail) = (scan none tail).after s s (s.all (· != '$')) := by
  induction s generalizing previous with
  | nil =>
    rw [List.nil_append, scan_previous h]
    simp [after]
  | cons c s ih =>
    obtain ⟨hc, hs⟩ := List.forall_mem_cons.mp hs
    obtain ⟨hne, hmark⟩ := not_or.mp (mt List.mem_cons.mpr hmark)
    rw [List.cons_append, scan_cons_ordinary hc, ih hs hmark (by simpa using Ne.symm hne)]
    simp [after, Bool.and_assoc, Option.map_map, Function.comp_def, Nat.add_assoc]

end Word

namespace Lexeme

variable {o m sep : Text}

def touching (o sep m : Text) : Text := points o ++ (sep ++ m)

theorem lead_append_touching (o sep m : Text) : lead o ++ touching o sep m = o ++ (sep ++ m) := by
  rw [touching, ← List.append_assoc, lead_append_points]

theorem mark_notMem (ho : isPath o = true) (hsep : sep ∈ separators) (hm : isName m = true) :
    '!' ∉ touching o sep m := by
  intro hin
  have hmark : (Text.isWord '!' || '!' == '.') = false := by decide +kernel
  rw [touching, List.mem_append, List.mem_append] at hin
  rcases hin with hin | hin | hin
  · have := isWord_or_point_of_isPath ho '!' (lead_append_points o ▸ List.mem_append_right _ hin)
    rw [hmark] at this
    cases this
  · simp only [separators, List.mem_cons, List.not_mem_nil, or_false] at hsep
    rcases hsep with rfl | rfl <;> simp at hin
  · have := isWord_of_isName hm '!' hin
    rw [(Bool.or_eq_false_iff.mp hmark).1] at this
    cases this

theorem isOrdinary_touching (ho : isPath o = true) (hsep : sep ∈ separators)
    (hm : isName m = true) : ∀ c ∈ touching o sep m, IsOrdinary c := fun c hc =>
  isOrdinary_of_mem ho hsep hm c
    (lead_append_touching o sep m ▸ List.mem_append_right (lead o) hc)

theorem head_touching (ho : isPath o = true) (hsep : sep ∈ separators) (m : Text) :
    (∃ rest, touching o sep m = '.' :: rest) ∨
      lead o = o ∧ touching o sep m = ':' :: ':' :: m := by
  simp only [separators, List.mem_cons, List.not_mem_nil, or_false] at hsep
  rcases points_cases ho with hp | ⟨rest, hp⟩
  · have hlead := lead_append_points o
    rw [hp, List.append_nil] at hlead
    rcases hsep with rfl | rfl
    · exact .inl ⟨m, by rw [touching, hp]; rfl⟩
    · exact .inr ⟨hlead, by rw [touching, hp]; rfl⟩
  · exact .inl ⟨rest ++ (sep ++ m), by rw [touching, hp, List.cons_append]⟩

theorem isParameterName_of_isName (h : isName m = true) : isParameterName m = true := by
  cases m with
  | nil => cases h
  | cons c rest =>
    simp only [isName, isParameterName, Bool.and_eq_true, List.all_eq_true] at h ⊢
    exact ⟨startsParameter_of_isNameStart h.1, fun d hd => isParameterChar_of_isWord (h.2 d hd)⟩

theorem scan_member (ho : isPath o = true) (hsep : sep ∈ separators) (m tail : Text) :
    scan '-' (o ++ (sep ++ (m ++ tail))) = .ofName '-' (lead o) (touching o sep m ++ tail) := by
  have hname := isParameterName_of_isName (isName_lead ho)
  have hsplit : o ++ (sep ++ (m ++ tail)) = lead o ++ (touching o sep m ++ tail) := by
    rw [← List.append_assoc (lead o), lead_append_touching, List.append_assoc, List.append_assoc]
  rw [hsplit]
  rcases head_touching ho hsep m with ⟨rest, htouch⟩ | ⟨-, htouch⟩
  · have hpoint : isParameterChar '.' = false := by decide +kernel
    rw [htouch, List.cons_append, scan_of_isDash isDash_hyphen
      (startsParameter_of_isParameterName hname)]
    exact parameter_of_run (run_name (isParameterChar_of_mem hname) _ hpoint) rfl
  · rw [htouch, List.cons_append, List.cons_append, scan_double_colon isDash_hyphen hname]

theorem scanAll_touching (ho : isPath o = true) (hsep : sep ∈ separators) (hm : isName m = true)
    (start : Nat) (tail : Text) :
    let w := Word.scan none tail
    ∃ l : Lexeme, scanAll start (touching o sep m ++ tail) =
        (start, l) :: scanAll (start + (touching o sep m ++ w.raw).length) w.rest ∧
      (l.kind = .bare ∨ l.kind = .number) ∧ l.raw = touching o sep m ++ w.raw ∧
      (w.opened = none → l.opened = none) ∧ l.rest = w.rest := by
  intro w
  have hword : Word.scan none (touching o sep m ++ tail) =
      w.after (touching o sep m) (touching o sep m) _ :=
    Word.scan_append_ordinary (isOrdinary_touching ho hsep hm) (mark_notMem ho hsep hm) (by simp)
      tail
  have hraw : (word (touching o sep m ++ tail)).raw = touching o sep m ++ w.raw := by
    simp [word, hword, Word.after]
  have hrest : (word (touching o sep m ++ tail)).rest = w.rest := by
    simp [word, hword, Word.after]
  have hscan : scanAll start (touching o sep m ++ tail) =
      (start, word (touching o sep m ++ tail)) ::
        scanAll (start + (touching o sep m ++ w.raw).length) w.rest := by
    rw [← hraw, ← hrest]
    rcases head_touching ho hsep m with ⟨rest, htouch⟩ | ⟨-, htouch⟩ <;>
      · rw [htouch, List.cons_append, scanAll_cons rfl rfl]
        rfl
  refine ⟨_, hscan, word_kind _, hraw, fun hopened => ?_, hrest⟩
  simp [word, hword, Word.after, hopened]

end Lexeme

end CommandShell
