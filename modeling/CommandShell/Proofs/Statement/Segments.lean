import CommandShell.Proofs.Element.Layout
import CommandShell.Statement

/-!
The statements of a line are made of its tokens, in their order.
-/

set_option autoImplicit false

namespace CommandShell

namespace Statement

theorem segments_finish (start n : Nat) (ts : List Token) :
    segments start (ts ++ [Token.finish n]) = segments start ts := by
  induction ts generalizing start with
  | nil => rfl
  | cons t ts ih => simp only [List.cons_append, segments, ih]

theorem sublist_of_mem_segments {start : Nat} {ts : List Token} {segment : Nat × List Token}
    (h : segment ∈ segments start ts) : segment.2.Sublist ts := by
  fun_induction segments start ts generalizing segment with
  | case1 => simp_all
  | case2 => simp_all
  | case3 start t ts _ _ ih =>
    rcases List.mem_cons.mp h with rfl | h
    · exact List.nil_sublist _
    · exact (ih h).cons t
  | case4 start t ts _ _ hs ih =>
    rw [List.mem_singleton.mp h]
    exact List.singleton_sublist.mpr (by simp)
  | case5 start t ts _ _ first tokens later hs ih =>
    rw [hs] at ih
    rcases List.mem_cons.mp h with rfl | h
    · exact (ih (List.mem_cons_self ..)).cons_cons t
    · exact (ih (List.mem_cons_of_mem _ h)).cons t

theorem at?_sublist (ts : List Token) (cursor : Int) : (at? ts cursor).Sublist ts := by
  unfold at?
  dsimp only
  split
  · rename_i segment hs
    exact sublist_of_mem_segments (List.mem_filter.mp (List.mem_of_getLast? hs)).1
  · cases hs : (segments 0 ts).head? with
    | none => exact List.nil_sublist _
    | some segment => exact sublist_of_mem_segments (List.mem_of_head? hs)

theorem laid_at? (line : Text) (cursor : Int) :
    Token.Laid line.length (at? (Token.scan line) cursor) := by
  have h : at? (Token.scan line) cursor =
      at? ((Lexeme.scanAll 0 line).map Token.ofLexeme) cursor := by
    simp only [at?, Token.scan, segments_finish]
  rw [h]
  exact (Token.laid_scanAll line).sublist (at?_sublist _ cursor)

end Statement

end CommandShell
