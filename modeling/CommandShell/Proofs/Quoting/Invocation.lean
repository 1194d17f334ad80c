import CommandShell.Proofs.Binding.Named
import CommandShell.Proofs.Token.Parameter

/-!
A line that calls a command and gives every value by name is read back as those names and values.
-/

set_option autoImplicit false

namespace CommandShell

namespace Quoting

open Binding

def named (g : Parameter × Text) : Text := ' ' :: '-' :: (g.1.name ++ ' ' :: quoteIfNeeded g.2)

def invocation (command : Text) (pairs : List (Parameter × Text)) : Text :=
  quoteIfNeeded command ++ pairs.flatMap named

theorem endsWord_named (pairs : List (Parameter × Text)) :
    endsWord (pairs.flatMap named) = true := by
  cases pairs <;> rfl

theorem scanAll_named_cons (start : Nat) {g : Parameter × Text}
    (h : Sign.isParameterName g.1.name = true) (pairs : List (Parameter × Text)) :
    Lexeme.scanAll start ((g :: pairs).flatMap named) =
      (start + 1, .ofName '-' g.1.name (' ' :: (quoteIfNeeded g.2 ++ pairs.flatMap named))) ::
        (start + 1 + (g.1.name.length + 1) + 1, argument g.2 (pairs.flatMap named)) ::
        Lexeme.scanAll (start + 1 + (g.1.name.length + 1) + 1 + (quoteIfNeeded g.2).length)
          (pairs.flatMap named) := by
  have hname := Lexeme.scan_name Sign.isDash_hyphen h
    (quoteIfNeeded g.2 ++ pairs.flatMap named)
  rw [List.flatMap_cons, named, List.cons_append, Lexeme.scanAll_blank rfl, List.cons_append,
    Lexeme.scanAll_cons rfl rfl, List.append_assoc, List.cons_append, hname]
  simp only [Lexeme.ofName, List.length_cons]
  rw [Lexeme.scanAll_blank rfl, scanAll_quoteIfNeeded _ _ (endsWord_named pairs)]

theorem named_scanAll (start : Nat) {pairs : List (Parameter × Text)}
    (h : ∀ g ∈ pairs, Sign.isParameterName g.1.name = true) :
    Named pairs ((Lexeme.scanAll start (pairs.flatMap named)).map Token.ofLexeme) := by
  induction pairs generalizing start with
  | nil =>
    rw [List.flatMap_nil, Lexeme.scanAll_nil]
    exact .nil
  | cons g pairs ih =>
    rw [scanAll_named_cons start (h g (by simp)), List.map_cons, List.map_cons]
    have hrest := ih (start + 1 + (g.1.name.length + 1) + 1 + (quoteIfNeeded g.2).length)
      fun k hk => h k (by simp [hk])
    exact .cons ⟨rfl, rfl, rfl⟩ ⟨argument_kind g.2 _, argument_value g.2 _⟩ hrest

theorem opened_scanAll_named (start : Nat) {pairs : List (Parameter × Text)}
    (h : ∀ g ∈ pairs, Sign.isParameterName g.1.name = true) :
    ∀ p ∈ Lexeme.scanAll start (pairs.flatMap named), p.2.opened = none := by
  induction pairs generalizing start with
  | nil => simp [Lexeme.scanAll_nil]
  | cons g pairs ih =>
    rw [scanAll_named_cons start (h g (by simp))]
    simp only [List.mem_cons, forall_eq_or_imp]
    exact ⟨rfl, argument_opened _ _, ih _ fun k hk => h k (by simp [hk])⟩

theorem scanStrict_invocation (command : Text) {pairs : List (Parameter × Text)}
    (h : ∀ g ∈ pairs, Sign.isParameterName g.1.name = true) :
    ∃ t ts n, Token.scanStrict (invocation command pairs) = .ok (t :: ts ++ [Token.finish n]) ∧
      t.IsArgument ∧ t.value = command ∧ Named pairs ts := by
  have hall := scanAll_quoteIfNeeded 0 command (endsWord_named pairs)
  have hfault : Token.fault? (invocation command pairs) = none := by
    refine Token.fault?_eq_none ?_
    rw [invocation, hall]
    simp only [List.mem_cons, forall_eq_or_imp]
    exact ⟨argument_opened _ _, opened_scanAll_named _ h⟩
  have hscan := Token.scanStrict_eq_ok hfault
  rw [Token.scan, invocation, hall, List.map_cons] at hscan
  exact ⟨_, _, _, hscan, argument_kind command _, argument_value command _, named_scanAll _ h⟩

end Quoting

end CommandShell
