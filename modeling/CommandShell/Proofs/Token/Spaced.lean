import CommandShell.Proofs.Token.Separator

/-!
Tokens that are printed with blanks between them are read back as they were: what a token is depends
on its own text and on nothing that stands beside it.
-/

set_option autoImplicit false

namespace CommandShell

open Sign

theorem Text.flatMap_separator (separator : Text) {parts : List Text} (h : parts ≠ []) :
    parts.flatMap (separator ++ ·) = separator ++ Text.join separator parts := by
  obtain ⟨part, parts, rfl⟩ := List.exists_cons_of_ne_nil h
  rw [List.flatMap_cons, Text.join_cons, List.append_assoc]

namespace Lexeme

def spaced (ps : List Placed) : Text := Text.join [' '] (ps.map (·.2.raw))

def spread (start : Nat) : List Placed → List Placed
  | [] => []
  | p :: ps => (start, (alone p).2) :: spread (start + p.2.raw.length + 1) ps

def behind (ps : List Placed) : Text := (ps.map (·.2.raw)).flatMap ([' '] ++ ·)

theorem spaced_cons (p : Placed) (ps : List Placed) : spaced (p :: ps) = p.2.raw ++ behind ps :=
  Text.join_cons ..

theorem behind_cons (p : Placed) (ps : List Placed) : behind (p :: ps) = ' ' :: spaced (p :: ps) :=
  Text.flatMap_separator [' '] (List.cons_ne_nil _ _)

/-- Where a lexeme was followed by the rest of its line a blank and the other lexemes may follow. -/
theorem admits_behind (start : Nat) (rest : Text) : Admits rest (behind (scanAll start rest)) := by
  refine ⟨fun hnil => ?_, .inr ?_⟩
  · rw [hnil, scanAll_nil]
    rfl
  · cases scanAll start rest with
    | nil => rfl
    | cons p ps => rw [behind_cons]; rfl

theorem scanAll_spaced (start m : Nat) (s : Text) :
    (scanAll m (spaced (scanAll start s))).map alone = spread m (scanAll start s) := by
  fun_induction scanAll start s generalizing m with
  | case1 => exact congrArg (List.map alone) (scanAll_nil m)
  | case2 start c rest hb ih => exact ih m
  | case3 start c rest hb hc ih => exact ih m
  | case4 start c rest hb hc ih =>
    rw [Bool.not_eq_true] at hb hc
    have hadmits := admits_behind (start + (scan c rest).raw.length) (scan c rest).rest
    generalize scanAll (start + (scan c rest).raw.length) (scan c rest).rest = ps at hadmits ih ⊢
    rw [spaced_cons, scan_raw_eq_cons hb, List.cons_append, scanAll_cons hb hc,
      scan_replace hb hadmits, List.map_cons, spread]
    refine congrArg _ ?_
    cases ps with
    | nil => exact congrArg (List.map alone) (scanAll_nil _)
    | cons p ps => rw [behind_cons, scanAll_blank rfl, ih]

theorem exists_of_mem_spread {start : Nat} {ps : List Placed} {q : Placed}
    (h : q ∈ spread start ps) : ∃ p ∈ ps, q.2 = (alone p).2 := by
  induction ps generalizing start with
  | nil => cases h
  | cons p ps ih =>
    rcases List.mem_cons.mp h with rfl | h
    · exact ⟨p, List.mem_cons_self .., rfl⟩
    · obtain ⟨p', hp', hq⟩ := ih h
      exact ⟨p', List.mem_cons_of_mem p hp', hq⟩

end Lexeme

namespace Token

def spaced (ts : List Token) : Text := Text.join [' '] (ts.map (·.text))

def spread (start : Nat) : List Token → List Token
  | [] => []
  | t :: ts => { t with start := start } :: spread (start + t.text.length + 1) ts

theorem spaced_ofLexeme (ps : List Placed) : spaced (ps.map ofLexeme) = Lexeme.spaced ps := by
  rw [spaced, Lexeme.spaced, List.map_map]
  rfl

theorem spread_ofLexeme (start : Nat) (ps : List Placed) :
    (Lexeme.spread start ps).map ofLexeme = spread start (ps.map ofLexeme) := by
  induction ps generalizing start with
  | nil => rfl
  | cons p ps ih => exact congrArg _ (ih _)

theorem ofText_spaced (s : Text) : ofText (spaced (ofText s)) = spread 0 (ofText s) := by
  have hall := congrArg (List.map ofLexeme) (Lexeme.scanAll_spaced 0 0 s)
  rw [spread_ofLexeme, List.map_map, ← spaced_ofLexeme] at hall
  exact hall

theorem fault?_spaced {s : Text} (h : fault? s = none) : fault? (spaced (ofText s)) = none := by
  rw [fault?_eq, List.findSome?_eq_none_iff] at h
  rw [fault?_eq, ← findSome?_alone, ofText, spaced_ofLexeme, Lexeme.scanAll_spaced,
    List.findSome?_eq_none_iff]
  intro q hq
  obtain ⟨p, hp, hqp⟩ := Lexeme.exists_of_mem_spread hq
  have hopened : p.2.opened = none := Option.map_eq_none_iff.mp (h p hp)
  rw [faultOf?, hqp]
  exact Option.map_eq_none_iff.mpr hopened

/-- In either mode the texts of the tokens of a line, with a blank between any two, are read as
those tokens: all but the place of each stays the same. -/
theorem read_spaced {strict : Bool} {s : Text} {ts : List Token} {n : Nat}
    (h : read strict s = .ok (ts ++ [finish n])) :
    read strict (spaced ts) = .ok (spread 0 ts ++ [finish (spaced ts).length]) := by
  obtain rfl := ofText_of_read h
  have hscan : scan (spaced (ofText s)) =
      spread 0 (ofText s) ++ [finish (spaced (ofText s)).length] :=
    congrArg (· ++ [finish (spaced (ofText s)).length]) (ofText_spaced s)
  cases strict with
  | false => exact congrArg Except.ok hscan
  | true =>
    exact (scanStrict_eq_ok (fault?_spaced (fault?_of_read h))).trans (congrArg Except.ok hscan)

theorem read_spaced_mixed_line :
    read true "-G.R -N:;a!<'b''c'd&&&$x# y\n-p::q!> e`".toList =
        .ok (ofText "-G.R -N:;a!<'b''c'd&&&$x# y\n-p::q!> e`".toList ++ [finish 38]) ∧
      spaced (ofText "-G.R -N:;a!<'b''c'd&&&$x# y\n-p::q!> e`".toList) =
        "-G .R -N: ; a! < 'b''c' d && & $x \n -p ::q!> e`".toList ∧
      read true "-G .R -N: ; a! < 'b''c' d && & $x \n -p ::q!> e`".toList =
        .ok (spread 0 (ofText "-G.R -N:;a!<'b''c'd&&&$x# y\n-p::q!> e`".toList) ++
          [finish 47]) := by
  have h : read true "-G.R -N:;a!<'b''c'd&&&$x# y\n-p::q!> e`".toList =
      .ok (ofText "-G.R -N:;a!<'b''c'd&&&$x# y\n-p::q!> e`".toList ++ [finish 38]) :=
    scanStrict_eq_ok (by decide +kernel)
  have hspaced : spaced (ofText "-G.R -N:;a!<'b''c'd&&&$x# y\n-p::q!> e`".toList) =
      "-G .R -N: ; a! < 'b''c' d && & $x \n -p ::q!> e`".toList := by decide +kernel
  have hread := read_spaced h
  rw [hspaced] at hread
  exact ⟨h, hspaced, hread⟩

end Token

end CommandShell
