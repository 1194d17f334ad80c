import CommandShell.Proofs.Token.Locality

/-!
Reading a text in two parts. Behind a text that ends between tokens everything is read as it would
be by itself, only farther on; a text that a separator ends is such a text.
-/

set_option autoImplicit false

namespace CommandShell

open Sign

def Sign.standsAlone (c : Char) : Bool := ";,(){}\n".toList.contains c

theorem Sign.isOperator_of_standsAlone {c : Char} (h : standsAlone c = true) :
    isOperator c = true := by
  have hall : ";,(){}\n".toList.all isOperator = true := by decide
  exact List.all_eq_true.mp hall c (List.contains_iff_mem.mp h)

theorem Sign.ne_of_standsAlone {c : Char} (h : standsAlone c = true) :
    isBlank c = false ∧ c ≠ '#' ∧ c ≠ '&' ∧ c ≠ '|' ∧ ¬ (c = '<' ∨ c = '>' ∨ c = ':') := by
  have hall : (";,(){}\n".toList.all fun c => decide (isBlank c = false ∧ c ≠ '#' ∧ c ≠ '&' ∧
      c ≠ '|' ∧ ¬ (c = '<' ∨ c = '>' ∨ c = ':'))) = true := by decide
  exact of_decide_eq_true (List.all_eq_true.mp hall c (List.contains_iff_mem.mp h))

/-- A text that ends between tokens: after a blank or an operator that stands alone, and not inside
a token or a comment. -/
inductive Sealed : Text → Prop where
  | nil : Sealed []
  | blank {c : Char} {s : Text} : isBlank c = true → Sealed s → Sealed (c :: s)
  | comment {body s : Text} : '\n' ∉ body → Sealed ('\n' :: s) → Sealed ('#' :: body ++ '\n' :: s)
  | lexeme {c : Char} {s : Text} : isBlank c = false → c ≠ '#' → (Lexeme.scan c s).rest ≠ [] →
      Sealed (Lexeme.scan c s).rest → Sealed (c :: s)
  | sign {c : Char} : standsAlone c = true → Sealed [c]

theorem Alike.cons_append {c : Char} {s : Text} (h : s ≠ [] ∨ ¬ (c = '<' ∨ c = '>' ∨ c = ':'))
    (t : Text) : Alike (c :: s) (c :: s ++ t) := by
  refine ⟨rfl, fun d hd hsign => ?_⟩
  obtain rfl : c = d := Option.some.inj hd
  cases s with
  | nil => exact absurd hsign (h.resolve_left fun hs => hs rfl)
  | cons => rfl

/-- A sealed text shows its scanners all that they look at. -/
theorem Sealed.alike {s : Text} (h : Sealed s) (hs : s ≠ []) (t : Text) : Alike s (s ++ t) := by
  cases h with
  | nil => exact absurd rfl hs
  | blank hb =>
    refine .cons_append (.inr ?_) t
    rintro (rfl | rfl | rfl) <;> cases hb
  | comment => exact .cons_append (.inr (by decide)) t
  | lexeme hb _ hr =>
    refine .cons_append (.inl fun hnil => hr ?_) t
    exact (List.append_eq_nil_iff.mp ((Lexeme.scan_tail_append_rest hb _).trans hnil)).2
  | sign hc => exact .cons_append (.inr (Sign.ne_of_standsAlone hc).2.2.2.2) t

namespace Lexeme

def alone (p : Placed) : Placed := (p.1, { p.2 with rest := [] })

def shift (n : Nat) (p : Placed) : Placed := (p.1 + n, p.2)

theorem scanAll_shift (start n : Nat) (s : Text) :
    scanAll (start + n) s = (scanAll start s).map (shift n) := by
  fun_induction scanAll start s with
  | case1 start => rw [scanAll_nil]; rfl
  | case2 start c rest hb ih => rw [scanAll_blank hb, ← ih, Nat.add_right_comm]
  | case3 start c rest hb hc ih =>
    rw [scanAll_comment hc, ← ih]
    congr 1
    omega
  | case4 start c rest hb hc ih =>
    rw [scanAll_cons (by simpa using hb) (by simpa using hc), List.map_cons, ← ih,
      Nat.add_right_comm]
    rfl

end Lexeme

open Lexeme

theorem takeWhile_line {body : Text} (h : '\n' ∉ body) (s : Text) :
    (body ++ '\n' :: s).takeWhile (· != '\n') = body ∧
      (body ++ '\n' :: s).dropWhile (· != '\n') = '\n' :: s := by
  have hall : ∀ c ∈ body, (c != '\n') = true := by
    intro c hc
    rw [bne_iff_ne]
    rintro rfl
    exact h hc
  rw [List.takeWhile_append_of_pos hall, List.dropWhile_append_of_pos hall]
  simp

theorem Sealed.scanAll_append {s : Text} (h : Sealed s) (start : Nat) (t : Text) :
    (scanAll start (s ++ t)).map alone =
      (scanAll start s).map alone ++ (scanAll (start + s.length) t).map alone := by
  induction h generalizing start with
  | nil => rw [scanAll_nil]; rfl
  | @blank c s hb _ ih =>
    rw [List.cons_append, scanAll_blank hb, scanAll_blank hb, ih, List.length_cons,
      Nat.add_assoc start 1, Nat.add_comm 1]
  | @comment body s hbody _ ih =>
    have hlength : start + ('#' :: body ++ '\n' :: s).length =
        start + 1 + body.length + ('\n' :: s).length := by
      simp only [List.cons_append, List.length_cons, List.length_append]
      omega
    rw [hlength, List.cons_append, List.cons_append, List.append_assoc, List.cons_append,
      scanAll_comment rfl, scanAll_comment rfl, (takeWhile_line hbody s).1,
      (takeWhile_line hbody s).2, (takeWhile_line hbody (s ++ t)).1,
      (takeWhile_line hbody (s ++ t)).2]
    exact ih (start + 1 + body.length)
  | @lexeme c s hb hc hr hs ih =>
    have hscan : scan c (s ++ t) = { scan c s with rest := (scan c s).rest ++ t } := by
      rw [← scan_replace hb (hs.alike hr t).admits, ← List.append_assoc, scan_tail_append_rest hb s]
    have hlength : start + (c :: s).length =
        start + (scan c s).raw.length + (scan c s).rest.length := by
      have := scan_rest_length c s
      simp only [List.length_cons]
      omega
    rw [hlength, List.cons_append, scanAll_cons hb (by simpa using hc),
      scanAll_cons hb (by simpa using hc), hscan, List.map_cons, ih, List.map_cons,
      List.cons_append]
    rfl
  | @sign c hc =>
    obtain ⟨hb, hcomment, hand, hor, -⟩ := ne_of_standsAlone hc
    have hscan (t : Text) : scan c t = ⟨.operator, [c], [c], none, true, none, t⟩ := by
      rw [scan, if_pos (isOperator_of_standsAlone hc)]
      cases t <;> simp [operator, hand, hor]
    rw [List.cons_append, List.nil_append, scanAll_cons hb (by simpa using hcomment),
      scanAll_cons hb (by simpa using hcomment), hscan, hscan, scanAll_nil]
    rfl

theorem isOperator_of_kind {c : Char} {rest : Text} (h : (scan c rest).kind = .operator) :
    isOperator c = true := by
  have hword := word_kind (c :: rest)
  revert h
  fun_cases scan c rest with
  | case1 ho => exact fun _ => ho
  | case2 | case3 => simp [quoted]
  | case4 => simp [reference]
  | case6 => simp [parameter_kind]
  | case5 | case7 => rcases hword with h | h <;> simp [h]

theorem sealed_of_getLast? {start : Nat} {s : Text} {p : Placed} {c : Char}
    (h : (scanAll start s).getLast? = some p) (hp : p.2.kind = .operator ∧ p.2.value = [c])
    (hend : p.1 + 1 = start + s.length) (hc : standsAlone c = true) : Sealed s := by
  fun_induction scanAll start s with
  | case1 => cases h
  | case2 start d rest hb ih =>
    refine .blank hb (ih h ?_)
    simp only [List.length_cons] at hend
    omega
  | case3 start d rest hb hd ih =>
    obtain rfl : d = '#' := by simpa using hd
    have hsplit := List.takeWhile_append_dropWhile (p := (· != '\n')) (l := rest)
    cases hdrop : rest.dropWhile (· != '\n') with
    | nil =>
      rw [hdrop, scanAll_nil] at h
      cases h
    | cons e more =>
      obtain rfl : e = '\n' := head?_dropWhile_line rest e (by rw [hdrop]; rfl)
      rw [hdrop] at hsplit ih h
      rw [← hsplit] at hend ⊢
      refine .comment (notMem_takeWhile_line rest) (ih h ?_)
      simp only [List.length_cons, List.length_append] at hend ⊢
      omega
  | case4 start d rest hb hd ih =>
    have hlength := scan_rest_length d rest
    rw [Bool.not_eq_true] at hb hd
    cases hmore : scanAll (start + (scan d rest).raw.length) (scan d rest).rest with
    | nil =>
      -- the separator is all there is
      rw [hmore, List.getLast?_singleton] at h
      obtain rfl := Option.some.inj h
      obtain rfl : rest = [] := by
        refine List.length_eq_zero_iff.mp ?_
        simp only [List.length_cons] at hend
        omega
      have hscan : scan d [] = operator d [] := by
        rw [scan, if_pos (isOperator_of_kind hp.1)]
      have hvalue := hp.2
      rw [hscan] at hvalue
      obtain rfl : d = c := (List.cons.inj hvalue).1
      exact .sign hc
    | cons q more =>
      rw [hmore, List.getLast?_cons_cons, ← hmore] at h
      have hrest : (scan d rest).rest ≠ [] := by
        intro hnil
        rw [hnil, scanAll_nil] at hmore
        cases hmore
      refine .lexeme hb (by simpa using hd) hrest (ih h ?_)
      simp only [List.length_cons] at hend
      omega

namespace Token

def shift (n : Nat) (t : Token) : Token := { t with start := t.start + n }

@[simp] theorem shift_kind (n : Nat) (t : Token) : (t.shift n).kind = t.kind := rfl

@[simp] theorem shift_text (n : Nat) (t : Token) : (t.shift n).text = t.text := rfl

@[simp] theorem shift_value (n : Nat) (t : Token) : (t.shift n).value = t.value := rfl

@[simp] theorem shift_start (n : Nat) (t : Token) : (t.shift n).start = t.start + n := rfl

@[simp] theorem shift_stop (n : Nat) (t : Token) : (t.shift n).stop = t.stop + n :=
  Nat.add_right_comm ..

theorem shift_finish (n length : Nat) : (finish length).shift n = finish (n + length) := by
  rw [Nat.add_comm]
  rfl

end Token

def SyntaxFault.shift (n : Nat) (f : SyntaxFault) : SyntaxFault := { f with offset := f.offset + n }

namespace Token

/-- The tokens of a text without the end of the input. -/
def ofText (s : Text) : List Token := (Lexeme.scanAll 0 s).map ofLexeme

def faultOf? (p : Placed) : Option SyntaxFault :=
  p.2.opened.map fun (offset, cause) => ⟨cause, p.1 + offset⟩

theorem fault?_eq (s : Text) : fault? s = (scanAll 0 s).findSome? faultOf? := rfl

theorem findSome?_alone (ps : List Placed) :
    (ps.map alone).findSome? faultOf? = ps.findSome? faultOf? := by
  rw [List.findSome?_map]
  rfl

theorem findSome?_shift (n : Nat) (ps : List Placed) :
    (ps.map (Lexeme.shift n)).findSome? faultOf? = (ps.findSome? faultOf?).map (·.shift n) := by
  have hone (p : Placed) : faultOf? (Lexeme.shift n p) = (faultOf? p).map (·.shift n) := by
    simp only [faultOf?, Lexeme.shift, Option.map_map]
    refine congrArg (Option.map · p.2.opened) (funext fun opened => ?_)
    simp only [Function.comp_apply, SyntaxFault.shift, Nat.add_right_comm]
  induction ps with
  | nil => rfl
  | cons p ps ih =>
    rw [List.map_cons, List.findSome?_cons, List.findSome?_cons, hone, ih]
    cases faultOf? p <;> rfl

theorem scan_append {s : Text} (h : Sealed s) (t : Text) :
    scan (s ++ t) = (scanAll 0 s).map ofLexeme ++ (scan t).map (shift s.length) := by
  have hall := congrArg (List.map ofLexeme) (h.scanAll_append 0 t)
  rw [scanAll_shift] at hall
  simp only [List.map_map, List.map_append] at hall
  simp only [scan, List.map_append, List.map_map, List.map_cons, List.map_nil, shift_finish,
    List.length_append, ← List.append_assoc]
  exact congrArg (· ++ [finish (s.length + t.length)]) hall

theorem fault?_append {s : Text} (h : Sealed s) (hs : fault? s = none) (t : Text) :
    fault? (s ++ t) = (fault? t).map (·.shift s.length) := by
  rw [fault?_eq, ← findSome?_alone, h.scanAll_append, List.findSome?_append, findSome?_alone,
    findSome?_alone, ← fault?_eq, hs, scanAll_shift, findSome?_shift, Option.none_or, fault?_eq]

theorem read_append {s : Text} (h : Sealed s) (hs : fault? s = none) (strict : Bool) (t : Text) :
    read strict (s ++ t) =
      ((read strict t).map fun ts => (scanAll 0 s).map ofLexeme ++ ts.map (shift s.length)).mapError
        (·.shift s.length) := by
  cases strict with
  | false => exact congrArg Except.ok (scan_append h t)
  | true =>
    simp only [read, if_true, scanStrict, fault?_append h hs, scan_append h]
    cases fault? t <;> rfl

/-- Behind a separator a line is read as it would be by itself, in either mode, and refused where it
would be. -/
theorem read_append_separator {a : Text} {c : Char} (hc : c = ';' ∨ c = '\n') {ts : List Token}
    {t : Token} {n : Nat} (h : read true (a ++ [c]) = .ok (ts ++ [t, finish n]))
    (ht : t.kind = .operator ∧ t.value = [c] ∧ t.start = a.length) (strict : Bool) (b : Text) :
    read strict (a ++ c :: b) =
      ((read strict b).map fun us => ts ++ t :: us.map (shift (a.length + 1))).mapError
        (·.shift (a.length + 1)) := by
  have hscan : ts ++ [t] = (scanAll 0 (a ++ [c])).map ofLexeme := by
    have hall := eq_scan_of_read h
    rw [scan, ← List.singleton_append (l := [finish n]), ← List.append_assoc] at hall
    exact List.append_inj_left' hall rfl
  have hfault : fault? (a ++ [c]) = none := by
    simp only [read, if_true, scanStrict] at h
    split at h
    · cases h
    · assumption
  have hsealed : Sealed (a ++ [c]) := by
    obtain ⟨p, hp, rfl⟩ : ∃ p, (scanAll 0 (a ++ [c])).getLast? = some p ∧ ofLexeme p = t := by
      have hlast := congrArg List.getLast? hscan
      rw [List.getLast?_concat, List.getLast?_map] at hlast
      exact Option.map_eq_some_iff.mp hlast.symm
    refine sealed_of_getLast? hp ⟨ht.1, ht.2.1⟩ ?_ ?_
    · have hstart : p.1 = a.length := ht.2.2
      simp only [List.length_append, List.length_singleton]
      omega
    · rcases hc with rfl | rfl <;> decide
  have hread := read_append hsealed hfault strict b
  rw [← hscan, List.append_assoc, List.length_append, List.length_singleton] at hread
  simpa only [List.append_assoc, List.singleton_append] using hread

theorem read_append_separator_open_quote :
    read true ("a!< 'b;'".toList ++ [';']) = .ok
        ([⟨.bare, "a!<".toList, "a!<".toList, 0, none, true⟩,
          ⟨.verbatim, "'b;'".toList, "b;".toList, 4, none, true⟩] ++
          [⟨.operator, [';'], [';'], 8, none, true⟩, finish 9]) ∧
      read true ("a!< 'b;'".toList ++ ';' :: "#c\n-N:'d".toList) = .error ⟨.quote, 15⟩ ∧
      read false ("a!< 'b;'".toList ++ ';' :: "#c\n-N:'d".toList) = .ok
        [⟨.bare, "a!<".toList, "a!<".toList, 0, none, true⟩,
          ⟨.verbatim, "'b;'".toList, "b;".toList, 4, none, true⟩,
          ⟨.operator, [';'], [';'], 8, none, true⟩,
          ⟨.operator, ['\n'], ['\n'], 11, none, true⟩,
          ⟨.parameter, "-N:'d".toList, ['N'], 12, some ['d'], true⟩, finish 17] := by
  have h : read true ("a!< 'b;'".toList ++ [';']) = .ok
      ([⟨.bare, "a!<".toList, "a!<".toList, 0, none, true⟩,
        ⟨.verbatim, "'b;'".toList, "b;".toList, 4, none, true⟩] ++
        [⟨.operator, [';'], [';'], 8, none, true⟩, finish 9]) :=
    (scanStrict_eq_ok (by decide +kernel)).trans (congrArg Except.ok (by decide +kernel))
  have hread := read_append_separator (.inl rfl) h ⟨rfl, rfl, rfl⟩
  have hfault : fault? "#c\n-N:'d".toList = some ⟨.quote, 6⟩ := by decide +kernel
  have hstrict : read true "#c\n-N:'d".toList = .error ⟨.quote, 6⟩ := by
    simp only [read, if_true, scanStrict, hfault]
  have hlenient : read false "#c\n-N:'d".toList = .ok
      [⟨.operator, ['\n'], ['\n'], 2, none, true⟩,
        ⟨.parameter, "-N:'d".toList, ['N'], 3, some ['d'], true⟩, finish 8] :=
    congrArg Except.ok (by decide +kernel)
  refine ⟨h, ?_, ?_⟩
  · rw [hread, hstrict]
    rfl
  · rw [hread, hlenient]
    rfl

end Token

namespace Sealed

theorem ofText_append {s : Text} (h : Sealed s) (rest : Text) : Token.ofText (s ++ rest) =
    Token.ofText s ++ (Lexeme.scanAll s.length rest).map Token.ofLexeme := by
  have hall := congrArg (List.map Token.ofLexeme) (h.scanAll_append 0 rest)
  rw [Nat.zero_add, List.map_append, List.map_map, List.map_map, List.map_map] at hall
  exact hall

theorem of_separator {s : Text} {t : Token} {c : Char} (h : (Token.ofText s).getLast? = some t)
    (ht : t.kind = .operator ∧ t.value = [c]) (hend : t.start + 1 = s.length)
    (hc : Sign.standsAlone c = true) : Sealed s := by
  rw [Token.ofText, List.getLast?_map] at h
  obtain ⟨p, hp, rfl⟩ := Option.map_eq_some_iff.mp h
  exact sealed_of_getLast? hp ht (by rw [Nat.zero_add]; exact hend) hc

end Sealed

namespace Token

theorem ofText_of_read {strict : Bool} {s : Text} {ts : List Token} {n : Nat}
    (h : read strict s = .ok (ts ++ [finish n])) : ofText s = ts := by
  have hall := eq_scan_of_read h
  rw [scan] at hall
  exact (List.append_inj_left' hall rfl).symm

theorem kind_ne_of_mem_ofText {s : Text} {t : Token} (h : t ∈ ofText s) : t.kind ≠ .endOfInput :=
  (tiling_scanAll s).kind_ne t h

theorem fault?_of_read {s : Text} {ts : List Token} (h : read true s = .ok ts) :
    fault? s = none := by
  simp only [read, if_true, scanStrict] at h
  split at h
  · cases h
  · assumption

end Token

end CommandShell
