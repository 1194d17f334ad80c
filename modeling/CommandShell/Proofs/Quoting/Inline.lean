import CommandShell.Proofs.Quoting.Invocation
import CommandShell.Proofs.Token.Separator

/-!
A value that is quoted if need be and follows a parameter name and a colon is read as the inline
value of that parameter.
-/

set_option autoImplicit false

namespace CommandShell

open Sign

namespace Lexeme

/-- The text in front of a lexeme is read as it was, whatever comes to stand in the place of the
lexeme, if only it begins alike. -/
theorem scanAll_replace {start : Nat} {s : Text} {ps more : List Placed} {q : Placed}
    (h : scanAll start s = ps ++ q :: more) :
    ∃ front c back, s = front ++ c :: back ∧ q = (start + front.length, scan c back) ∧
      isBlank c = false ∧ (c == '#') = false ∧ ∀ t, Alike (c :: back) t →
        (scanAll start (front ++ t)).map alone =
          ps.map alone ++ (scanAll (start + front.length) t).map alone := by
  fun_induction scanAll start s generalizing ps with
  | case1 => simp at h
  | case2 start d rest hb ih =>
    obtain ⟨front, c, back, rfl, rfl, hc, hcomment, hall⟩ := ih h
    refine ⟨d :: front, c, back, rfl, ?_, hc, hcomment, fun t ht => ?_⟩
    · rw [List.length_cons, Nat.add_assoc, Nat.add_comm 1]
    · rw [List.cons_append, scanAll_blank hb, hall t ht, List.length_cons, Nat.add_assoc,
        Nat.add_comm 1]
  | case3 start d rest hb hd ih =>
    obtain rfl : d = '#' := by simpa using hd
    obtain ⟨front, c, back, hdrop, hq, hc, hcomment, hall⟩ := ih h
    have hsplit := List.takeWhile_append_dropWhile (p := (· != '\n')) (l := rest)
    have hbody := notMem_takeWhile_line rest
    have hline := head?_dropWhile_line rest
    rw [hdrop] at hsplit hline
    generalize rest.takeWhile (· != '\n') = body at *
    have hlength : start + 1 + body.length + front.length =
        start + ('#' :: body ++ front).length := by
      simp only [List.cons_append, List.length_cons, List.length_append]
      omega
    refine ⟨'#' :: body ++ front, c, back, ?_, by rw [hq, hlength], hc, hcomment, fun t ht => ?_⟩
    · rw [← hsplit, List.cons_append, List.cons_append, List.append_assoc]
    · -- the line of the comment ends where it did
      obtain ⟨u, hu⟩ : ∃ u, front ++ t = '\n' :: u := by
        refine List.head?_eq_some_iff.mp ?_
        rw [← (ht.append front).head]
        obtain ⟨e, back', he⟩ := List.exists_cons_of_ne_nil
          (List.append_ne_nil_of_right_ne_nil front (List.cons_ne_nil c back))
        rw [he] at hline ⊢
        exact congrArg some (hline e rfl)
      rw [List.cons_append, List.cons_append, List.append_assoc, scanAll_comment rfl, hu,
        (takeWhile_line hbody u).1, (takeWhile_line hbody u).2, ← hu, hall t ht, hlength,
        List.cons_append]
  | case4 start d rest hb hd ih =>
    rw [Bool.not_eq_true] at hb hd
    cases ps with
    | nil =>
      obtain ⟨rfl, -⟩ := List.cons.inj h
      exact ⟨[], d, rest, rfl, rfl, hb, hd, fun t _ => rfl⟩
    | cons p ps =>
      obtain ⟨rfl, hmore⟩ := List.cons.inj h
      obtain ⟨front, c, back, hrest, hq, hc, hcomment, hall⟩ := ih hmore
      have happend := scan_tail_append_rest hb rest
      have hlength : start + (scan d rest).raw.length + front.length =
          start + (d :: (scan d rest).raw.tail ++ front).length := by
        rw [← scan_raw_eq_cons hb, List.length_append, Nat.add_assoc]
      refine ⟨d :: (scan d rest).raw.tail ++ front, c, back, ?_, by rw [hq, hlength], hc, hcomment,
        fun t ht => ?_⟩
      · rw [List.cons_append, List.cons_append, List.append_assoc, ← hrest, happend]
      · have hscan := scan_replace hb (hrest ▸ ht.append front).admits
        rw [List.cons_append, List.cons_append, List.append_assoc, scanAll_cons hb hd, hscan,
          List.map_cons, hall t ht, hlength, List.map_cons, List.cons_append, List.cons_append]
        rfl

end Lexeme

namespace Quoting

theorem quoteIfNeeded_ne_nil (v : Text) : quoteIfNeeded v ≠ [] := by
  cases h : needsQuoting v with
  | true =>
    rw [quoteIfNeeded, if_pos h, quote_eq]
    exact List.cons_ne_nil _ _
  | false =>
    rw [quoteIfNeeded, h, if_neg (by simp)]
    rintro rfl
    cases (needsQuoting_eq_false_iff []).mp h

theorem length_lt_quote (v : Text) : v.length < (quote v).length := by
  have hle : v.length ≤ (v.flatMap doubled).length := by
    induction v with
    | nil => exact Nat.le_refl _
    | cons c v ih =>
      have hpos : 1 ≤ (doubled c).length := by
        unfold doubled
        split <;> simp
      rw [List.flatMap_cons, List.length_append, List.length_cons]
      omega
  rw [quote_eq, List.length_cons, List.length_append]
  omega

theorem quoteIfNeeded_eq_self_iff {v : Text} : quoteIfNeeded v = v ↔ needsQuoting v = false := by
  cases h : needsQuoting v with
  | false => simp [quoteIfNeeded, h]
  | true =>
    rw [quoteIfNeeded, if_pos h]
    have hlt := length_lt_quote v
    exact iff_of_false (fun he => Nat.ne_of_gt hlt (congrArg List.length he)) (by simp)

theorem word_quoteIfNeeded (v : Text) :
    Word.scan none (quoteIfNeeded v) =
      ⟨quoteIfNeeded v, v, !needsQuoting v, none, []⟩ := by
  cases h : needsQuoting v with
  | true =>
    have hquote := @verbatim_doubled v [] rfl
    rw [quoteIfNeeded, if_pos h, quote_eq, Word.scan.eq_def]
    simp only [hquote, Word.scan_nil]
    simp [isBlank, isOperator, backtick, isSingleQuote, Word.after, Word.nothing]
  | false =>
    have hplain := (needsQuoting_eq_false_iff v).mp h
    rw [quoteIfNeeded, h, if_neg (by simp)]
    cases v with
    | nil => cases hplain
    | cons c rest =>
      simp only [isPlain, Bool.and_eq_true, List.isEmpty_iff] at hplain
      obtain ⟨⟨-, hp⟩, hr⟩ := hplain
      have hword := (Lexeme.scan_eq_word_of_isPlain hp).1
      rw [hword] at hp hr
      have hliteral := Lexeme.literal_of_word_isPlain hp
      obtain ⟨hvalue, hopened⟩ := Word.eq_raw_of_literal none (c :: rest) hliteral
      have hrest : (Word.scan none (c :: rest)).rest = [] := hr
      have hraw := Word.scan_raw_append_rest none (c :: rest)
      rw [hrest, List.append_nil] at hraw
      rw [hraw] at hvalue
      cases hw : Word.scan none (c :: rest)
      simp_all

theorem scan_inline {c : Char} {rest : Text} (h : (Lexeme.scan c rest).kind = .parameter)
    {v : Text} (hv : (quoteIfNeeded v).head? ≠ some ':') :
    Lexeme.scan c ((Lexeme.scan c rest).value ++ ':' :: quoteIfNeeded v) =
      ⟨.parameter, c :: (Lexeme.scan c rest).value ++ ':' :: quoteIfNeeded v,
        (Lexeme.scan c rest).value, some v, true, none, []⟩ := by
  have hne := List.isEmpty_eq_false_iff.mpr (quoteIfNeeded_ne_nil v)
  rw [Lexeme.scan_colon (Lexeme.scan_eq_parameter h).2.1
    (Lexeme.isParameterName_of_parameter h) hv]
  simp only [word_quoteIfNeeded, hne, Bool.false_eq_true, if_false, Option.map_none]

theorem scanAll_inline {s : Text} {ps : List Placed} {q : Placed}
    (h : Lexeme.scanAll 0 s = ps ++ [q]) (hq : q.2.kind = .parameter)
    (hstop : q.1 + q.2.raw.length = s.length) (hname : q.2.value.length + 1 < q.2.raw.length)
    {v : Text} (hv : (quoteIfNeeded v).head? ≠ some ':') :
    ∃ q' : Placed, (Lexeme.scanAll 0 (s.take (q.1 + q.2.value.length + 2) ++
        quoteIfNeeded v)).map Lexeme.alone = ps.map Lexeme.alone ++ [q'] ∧
      q'.2.kind = .parameter ∧ q'.2.value = q.2.value ∧ q'.2.inline = some v := by
  obtain ⟨text, c, back, rfl, rfl, hb, hcomment, hall⟩ := Lexeme.scanAll_replace h
  simp only [Nat.zero_add] at hq hstop hname hall ⊢
  have hrest : (Lexeme.scan c back).rest = [] := by
    have hlength := Lexeme.scan_rest_length c back
    rw [List.length_append, List.length_cons] at hstop
    exact List.length_eq_zero_iff.mp (by omega)
  have hinline := scan_inline hq hv
  obtain ⟨-, hdash, -⟩ := Lexeme.scan_eq_parameter hq
  obtain ⟨typed, htyped⟩ := Lexeme.exists_colon_of_parameter hq hname
  have hback := Lexeme.scan_raw_append_rest c back
  rw [hrest, List.append_nil, htyped] at hback
  generalize (Lexeme.scan c back).value = value at *
  have htake : (text ++ c :: back).take (text.length + value.length + 2) =
      text ++ c :: (value ++ [':']) := by
    have hsplit : text ++ c :: back = text ++ c :: (value ++ [':']) ++ typed := by
      rw [← hback]
      simp
    rw [hsplit]
    refine List.take_left' ?_
    simp only [List.length_append, List.length_cons, List.length_nil]
    omega
  have halike : Alike (c :: back) (c :: (value ++ ':' :: quoteIfNeeded v)) := by
    refine ⟨rfl, ?_⟩
    rintro _ ⟨⟩ (rfl | rfl | rfl) <;> cases hdash
  refine ⟨Lexeme.alone (text.length, Lexeme.scan c (value ++ ':' :: quoteIfNeeded v)), ?_, ?_⟩
  · rw [htake, List.append_assoc, List.cons_append, List.append_assoc, List.singleton_append,
      hall _ halike, Lexeme.scanAll_cons hb hcomment, hinline, Lexeme.scanAll_nil]
    rfl
  · rw [hinline]
    exact ⟨rfl, rfl, rfl⟩

end Quoting

end CommandShell
