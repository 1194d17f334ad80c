import CommandShell.Proofs.Quoting.Argument

/-!
How far a scanner looks. What it takes does not change when the text behind it is replaced by one
that begins alike, or that a blank or the end of a line keeps apart from it.
-/

set_option autoImplicit false

namespace CommandShell

open Sign

/-- Two texts that a scanner cannot tell apart from what is before them. It looks at the next
character, and behind an angle sign or a colon at one more. -/
structure Alike (s t : Text) : Prop where
  head : s.head? = t.head?
  next : ∀ c ∈ s.head?, c = '<' ∨ c = '>' ∨ c = ':' → s.tail.head? = t.tail.head?

namespace Alike

variable {s t : Text}

theorem eq_nil (h : Alike [] t) : t = [] := List.head?_eq_none_iff.mp h.head.symm

theorem exists_cons {c : Char} (h : Alike (c :: s) t) : ∃ u, t = c :: u :=
  List.head?_eq_some_iff.mp h.head.symm

theorem append (part : Text) (h : Alike s t) : Alike (part ++ s) (part ++ t) := by
  cases part with
  | nil => exact h
  | cons c part =>
    refine ⟨rfl, fun _ _ _ => ?_⟩
    cases part with
    | nil => exact h.head
    | cons => rfl

theorem endsWord_eq (h : Alike s t) : endsWord s = endsWord t := by
  cases s with
  | nil => rw [h.eq_nil]
  | cons c s =>
    obtain ⟨u, rfl⟩ := h.exists_cons
    rfl

theorem endsWord_tail {c : Char} {u : Text} (h : Alike (c :: s) (c :: u))
    (hc : c = '<' ∨ c = '>') : endsWord s = endsWord u := by
  have hnext : s.head? = u.head? := h.next c rfl (hc.elim .inl (.inr ∘ .inl))
  cases s with
  | nil => rw [List.head?_eq_none_iff.mp hnext.symm]
  | cons d s =>
    obtain ⟨v, rfl⟩ := List.head?_eq_some_iff.mp hnext.symm
    rfl

end Alike

/-- A scanner that looks at the next character stops before `t` if it stops before `s`: the next
character is the same, or one that ends a word. An end stays an end, since a scanner that comes to
it may have left something open. -/
structure Meets (s t : Text) : Prop where
  ended : s = [] → t = []
  head : s.head? = t.head? ∨ endsWord t = true

/-- The same for a scanner that looks behind an angle sign or a colon too. -/
structure Admits (s t : Text) : Prop where
  ended : s = [] → t = []
  alike : Alike s t ∨ endsWord t = true

section

variable {s t : Text}

theorem Alike.admits (h : Alike s t) : Admits s t :=
  ⟨fun hs => (hs ▸ h).eq_nil, .inl h⟩

theorem Admits.meets (h : Admits s t) : Meets s t :=
  ⟨h.ended, h.alike.imp Alike.head id⟩

theorem Admits.endsWord (h : Admits s t) (hs : endsWord s = true) : endsWord t = true :=
  h.alike.elim (fun ha => ha.endsWord_eq ▸ hs) id

theorem Meets.append (part : Text) (h : Meets s t) : Meets (part ++ s) (part ++ t) := by
  cases part with
  | nil => exact h
  | cons c part => exact ⟨fun he => absurd he (List.cons_ne_nil _ _), .inl rfl⟩

theorem Meets.any_head?_eq_false (h : Meets s t) {f : Char → Bool}
    (hf : [' ', '\t', '\r', '\n'].any f = false) (hs : s.head?.any f = false) :
    t.head?.any f = false := by
  rcases h.head with he | he
  · rw [← he]
    exact hs
  · exact Lexeme.any_head?_of_endsWord hf he

end

namespace Quotation

variable {s t : Text}

theorem expandable_cons {c : Char} (hb : (c == backtick) = false) (hd : isDoubleQuote c = false)
    (s : Text) : expandable (c :: s) = (expandable s).after [c] [c] := by
  cases s with
  | nil => simp [expandable, hb, hd, after]
  | cons d s => simp [expandable, hb, hd]

theorem expandable_close {c : Char} (hb : (c == backtick) = false) (hc : isDoubleQuote c = true)
    {s : Text} (hs : s.head?.any isDoubleQuote = false) :
    expandable (c :: s) = ⟨[c], [], true, s⟩ := by
  cases s with
  | nil => simp [expandable, hb, hc]
  | cons d s =>
    have hd : isDoubleQuote d = false := hs
    simp [expandable, hb, hc, hd]

theorem verbatim_replace (h : Meets (verbatim s).rest t) :
    verbatim ((verbatim s).raw ++ t) = { verbatim s with rest := t } := by
  fun_induction verbatim s with
  | case1 => rw [h.ended rfl]; rfl
  | case2 c hc | case3 c hc =>
    rw [h.ended rfl]
    simp [verbatim, hc]
  | case4 c d s hc hd ih =>
    have ih := ih h
    simp only [after, List.cons_append, List.nil_append, verbatim, hc, hd, if_true, ih]
  | case5 c d s hc hd =>
    exact verbatim_close hc (h.any_head?_eq_false (by decide) (Bool.not_eq_true _ ▸ hd))
  | case6 c d s hc ih =>
    rw [Bool.not_eq_true] at hc
    simp only [after, List.cons_append, List.nil_append, verbatim_cons hc, ih h]

theorem expandable_replace (h : Meets (expandable s).rest t) :
    expandable ((expandable s).raw ++ t) = { expandable s with rest := t } := by
  fun_induction expandable s with
  | case1 => rw [h.ended rfl]; rfl
  | case2 c hc =>
    rw [h.ended rfl]
    simp [expandable, hc]
  | case3 c hb hc | case4 c hb hc =>
    rw [h.ended rfl]
    simp [expandable, hb, hc]
  | case5 c d s hb ih =>
    have ih := ih h
    simp only [after, List.cons_append, List.nil_append, expandable, hb, if_true, ih]
  | case6 c d s hb hc hd ih =>
    have ih := ih h
    simp only [after, List.cons_append, List.nil_append, expandable, hb, hc, hd, if_true, ih,
      Bool.false_eq_true, if_false]
  | case7 c d s hb hc hd =>
    exact expandable_close (Bool.not_eq_true _ ▸ hb) hc
      (h.any_head?_eq_false (by decide) (Bool.not_eq_true _ ▸ hd))
  | case8 c d s hb hc ih =>
    rw [Bool.not_eq_true] at hb hc
    simp only [after, List.cons_append, List.nil_append, expandable_cons hb hc, ih h]

end Quotation

namespace Word

theorem scan_nil (previous : Option Char) : scan previous [] = nothing [] := by
  rw [scan.eq_def]

theorem scan_meets (previous : Option Char) (s : Text) {t : Text}
    (h : Admits (scan previous s).rest t) : Meets s ((scan previous s).raw ++ t) := by
  have happend := h.meets.append (scan previous s).raw
  rwa [scan_raw_append_rest] at happend

/-- A word ends where it did as long as what is behind it does not go on with it. -/
theorem scan_replace (previous : Option Char) (s : Text) {t : Text}
    (h : Admits (scan previous s).rest t) :
    scan previous ((scan previous s).raw ++ t) = { scan previous s with rest := t } := by
  fun_induction scan previous s with
  | case1 previous => exact scan_of_endsWord previous (h.endsWord rfl)
  | case2 previous c rest hb => exact scan_of_endsWord previous (h.endsWord hb)
  | case3 previous c rest hb ho hs ih =>
    obtain ⟨hsign, hend⟩ := Bool.and_eq_true_iff.mp hs
    have hnothing := scan_of_endsWord (some c) hend
    simp only [after, hnothing, nothing] at h ⊢
    have hs' : ((c == '<' || c == '>') && previous == some '!' && endsWord t) = true :=
      Bool.and_eq_true_iff.mpr ⟨hsign, h.endsWord hend⟩
    rw [List.append_nil, List.cons_append, List.nil_append, scan.eq_def]
    simp only [if_neg hb, if_pos ho, if_pos hs', scan_of_endsWord (some c) (h.endsWord hend), after,
      nothing, List.append_nil]
  | case4 previous c rest hb ho hs =>
    rcases h.alike with ha | he
    · obtain ⟨u, rfl⟩ := ha.exists_cons
      have hs' : ¬ ((c == '<' || c == '>') && previous == some '!' && endsWord u) = true := by
        intro hu
        obtain ⟨hsign, hend⟩ := Bool.and_eq_true_iff.mp hu
        have hc : c = '<' ∨ c = '>' := by simpa using (Bool.and_eq_true_iff.mp hsign).1
        exact hs (Bool.and_eq_true_iff.mpr ⟨hsign, (Alike.endsWord_tail ha hc).trans hend⟩)
      simp only [nothing, List.nil_append]
      rw [scan.eq_def]
      simp only [if_neg hb, if_pos ho, if_neg hs', nothing]
    · exact scan_of_endsWord previous he
  | case5 previous c hb ho hc =>
    rw [h.ended rfl, List.append_nil, scan.eq_def]
    simp only [if_neg hb, if_neg ho, if_pos hc]
  | case6 previous c hb ho hc d rest ih =>
    simp only [after, List.cons_append, List.nil_append]
    rw [scan.eq_def]
    simp only [if_neg hb, if_neg ho, if_pos hc, ih h, after, List.cons_append, List.nil_append]
  | case7 previous c rest hb ho hc hq q hclosed ih =>
    have hquote := Quotation.verbatim_replace (s := rest) (scan_meets (some c) q.rest h)
    simp only [after, List.cons_append, List.append_assoc]
    rw [scan.eq_def]
    simp only [if_neg hb, if_neg ho, if_neg hc, if_pos hq, q, hquote, if_pos hclosed, ih h, after,
      List.cons_append]
  | case8 previous c rest hb ho hc hq q hopen =>
    have hquote := Quotation.verbatim_replace (s := rest) h.meets
    simp only [List.cons_append]
    rw [scan.eq_def]
    simp only [if_neg hb, if_neg ho, if_neg hc, if_pos hq, q, hquote, if_neg hopen]
  | case9 previous c rest hb ho hc hs hq q hclosed ih =>
    have hquote := Quotation.expandable_replace (s := rest) (scan_meets (some c) q.rest h)
    simp only [after, List.cons_append, List.append_assoc]
    rw [scan.eq_def]
    simp only [if_neg hb, if_neg ho, if_neg hc, if_neg hs, if_pos hq, q, hquote, if_pos hclosed,
      ih h, after, List.cons_append]
  | case10 previous c rest hb ho hc hs hq q hopen =>
    have hquote := Quotation.expandable_replace (s := rest) h.meets
    simp only [List.cons_append]
    rw [scan.eq_def]
    simp only [if_neg hb, if_neg ho, if_neg hc, if_neg hs, if_pos hq, q, hquote, if_neg hopen]
  | case11 previous c rest hb ho hback hsingle hdouble ih =>
    simp only [after, List.cons_append, List.nil_append]
    rw [scan.eq_def]
    simp only [if_neg hb, if_neg ho, if_neg hback, if_neg hsingle, if_neg hdouble, ih h, after,
      List.cons_append, List.nil_append]

end Word

theorem run_replace {p : Char → Bool} (s : Text) {t : Text} (h : t.head?.any p = false) :
    (s.takeWhile p ++ t).takeWhile p = s.takeWhile p ∧ (s.takeWhile p ++ t).dropWhile p = t := by
  have hall : ∀ c ∈ s.takeWhile p, p c = true := List.all_eq_true.mp List.all_takeWhile
  rw [List.takeWhile_append_of_pos hall, List.dropWhile_append_of_pos hall]
  cases t with
  | nil => simp
  | cons c t =>
    have hc : p c = false := h
    simp [hc]

theorem any_head?_dropWhile (p : Char → Bool) (s : Text) :
    (s.dropWhile p).head?.any p = false := by
  have hnot := List.head?_dropWhile_not p s
  cases hd : (s.dropWhile p).head? with
  | none => rfl
  | some c =>
    rw [hd] at hnot
    simpa using hnot

namespace Reference

theorem scan?_eq_none_iff {s : Text} : scan? s = none ↔
    s.head?.any (fun c => c == '{' || (c == '$' || c == '?' || c == '^') || isReferenceChar c) =
      false := by
  fun_cases scan? s with
  | case1 => simp
  | case2 c rest hc | case3 c rest hc => simp [hc]
  | case4 c rest hc hsign => simp [hsign]
  | case5 c rest hc hsign name hname =>
    have hchar : isReferenceChar c = false := by
      cases hchar : isReferenceChar c with
      | false => rfl
      | true => simp [name, hchar] at hname
    rw [Bool.not_eq_true] at hc hsign
    simp [hc, hsign, hchar]
  | case6 c rest hc hsign name hname =>
    have hchar : isReferenceChar c = true := by
      cases hchar : isReferenceChar c with
      | false => simp [name, hchar] at hname
      | true => rfl
    simp [hchar]

theorem scan?_eq_none_of_meets {s t : Text} (hs : scan? s = none) (h : Meets s t) :
    scan? t = none :=
  scan?_eq_none_iff.mpr (h.any_head?_eq_false (by decide +kernel) (scan?_eq_none_iff.mp hs))

/-- A reference is the same before a text that it does not go on with. One that nothing closes is
not, unless there is nothing behind it. -/
theorem scan?_raw_append {s t : Text} {r : Reference} (hr : scan? s = some r)
    (hopen : r.closed = false → r.rest = [] → t = [])
    (hend : r.rest.head?.any isReferenceChar = false → t.head?.any isReferenceChar = false) :
    scan? (r.raw ++ t) = some { r with rest := t } := by
  revert hr hopen hend
  fun_cases scan? s with
  | case1 | case5 => intro hr; cases hr
  | case2 c tail hc name brace rest hdrop =>
    intro hr _ _
    obtain rfl := Option.some.inj hr
    have hbrace := any_head?_dropWhile (· != '}') tail
    rw [hdrop] at hbrace
    have hrun := run_replace tail (t := brace :: t) hbrace
    simp [scan?, hc, name, hrun]
  | case3 c tail hc name hdrop =>
    intro hr hopen _
    obtain rfl := Option.some.inj hr
    obtain rfl : t = [] := hopen rfl rfl
    have hrun := run_replace (p := (· != '}')) tail (t := []) rfl
    rw [List.append_nil] at hrun
    simp [scan?, hc, name, hrun]
  | case4 c tail hc hsign =>
    intro hr _ _
    obtain rfl := Option.some.inj hr
    simp [scan?, hc, hsign]
  | case6 c tail hc hsign name hname =>
    intro hr _ hend
    obtain rfl := Option.some.inj hr
    have hrun := run_replace (c :: tail) (hend (any_head?_dropWhile isReferenceChar (c :: tail)))
    obtain ⟨more, hmore⟩ : ∃ more, name = c :: more := by
      simp only [name, List.takeWhile_cons] at hname ⊢
      split at hname
      · exact ⟨_, if_pos ‹_›⟩
      · exact absurd rfl hname
    have hname' : (c :: tail).takeWhile isReferenceChar = c :: more := hmore
    simp only [hname', List.cons_append] at hrun
    simp [scan?, hc, hsign, hmore, hrun]

theorem scan?_replace {s t : Text} {r : Reference} (hr : scan? s = some r) (h : Meets r.rest t) :
    scan? (r.raw ++ t) = some { r with rest := t } :=
  scan?_raw_append hr (fun _ => h.ended) (h.any_head?_eq_false (by decide +kernel))

end Reference

theorem Sign.isParameterChar_of_startsParameter {c : Char} (h : startsParameter c = true) :
    isParameterChar c = true := by
  simp only [startsParameter, Bool.or_eq_true] at h
  rcases h with (h | h) | h <;> simp [isParameterChar, Text.isAlphanumeric, h]

namespace Lexeme

theorem operator_single {c : Char} {rest : Text}
    (h : rest.head?.any (fun d => c == d && (c == '&' || c == '|')) = false) :
    operator c rest = ⟨.operator, [c], [c], none, true, none, rest⟩ := by
  cases rest with
  | nil => rfl
  | cons d rest => exact if_neg (Bool.eq_false_iff.mp h)

theorem operator_replace {c : Char} {rest t : Text} (h : Meets (operator c rest).rest t) :
    operator c ((operator c rest).raw.tail ++ t) = { operator c rest with rest := t } := by
  revert h
  fun_cases operator c rest with
  | case1 d rest hd =>
    intro h
    simp [operator, hd]
  | case2 d rest hd =>
    intro h
    refine operator_single (h.any_head?_eq_false ?_ (Bool.not_eq_true _ ▸ hd))
    by_cases hc : c = '&' ∨ c = '|'
    · rcases hc with rfl | rfl <;> decide
    · simp [not_or.mp hc]
  | case3 =>
    intro h
    rw [h.ended rfl]
    rfl

theorem eq_cons_tail {c : Char} {raw rest s : Text} (h : raw ++ rest = c :: s)
    (hr : 0 < raw.length) : raw = c :: raw.tail := by
  cases raw with
  | nil => cases hr
  | cons d raw =>
    obtain ⟨rfl, -⟩ := List.cons.inj h
    rfl

theorem word_raw_eq_cons {c : Char} {rest : Text} (hb : isBlank c = false)
    (ho : isOperator c = false) : (word (c :: rest)).raw = c :: (word (c :: rest)).raw.tail :=
  eq_cons_tail (word_raw_append_rest (c :: rest)) (word_raw_length_pos hb ho)

theorem word_replace {c : Char} {rest t : Text} (hb : isBlank c = false)
    (ho : isOperator c = false) (h : Admits (word (c :: rest)).rest t) :
    word (c :: ((word (c :: rest)).raw.tail ++ t)) = { word (c :: rest) with rest := t } := by
  have hscan := Word.scan_replace none (c :: rest) h
  have hraw : (Word.scan none (c :: rest)).raw = c :: (Word.scan none (c :: rest)).raw.tail :=
    word_raw_eq_cons hb ho
  rw [hraw, List.cons_append] at hscan
  simp only [word, hscan, List.head?_cons]
  rfl

theorem parameter_of_run {dash : Char} {s name rest : Text}
    (hs : s.takeWhile isParameterChar = name ∧ s.dropWhile isParameterChar = rest)
    (h : rest.head?.any (· == ':') = false) :
    parameter dash s = ⟨.parameter, dash :: name, name, none, true, none, rest⟩ := by
  cases rest with
  | nil => simp only [parameter, hs]
  | cons c rest =>
    have hc : c ≠ ':' := by simpa using h
    simp only [parameter, hs]
    split
    · rename_i heq
      exact absurd (List.cons.inj heq).1 hc
    · rfl

theorem parameter_replace {dash : Char} {rest t : Text} (h : Admits (parameter dash rest).rest t) :
    parameter dash ((parameter dash rest).raw.tail ++ t) =
      { parameter dash rest with rest := t } := by
  have hname {u : Text} (hu : Meets (rest.dropWhile isParameterChar) u) :=
    run_replace rest (hu.any_head?_eq_false (by decide +kernel)
      (any_head?_dropWhile isParameterChar rest))
  revert h
  fun_cases parameter dash rest with
  | case1 name colon more hmore htwo =>
    intro h
    rcases h.alike with ha | he
    · have hrun := hname h.meets
      simp only [hmore] at ha
      obtain ⟨u, rfl⟩ := ha.exists_cons
      have hnext : more.head? = u.head? := ha.next ':' rfl (.inr (.inr rfl))
      simp only [List.tail_cons, parameter, name, hrun, ← hnext, if_pos htwo]
    · exact parameter_of_run (hname h.meets) (any_head?_of_endsWord (by decide) he)
  | case2 name colon more hmore htwo w =>
    intro h
    have hword : Meets more (w.raw ++ t) := Word.scan_meets none more h
    have hcolon : isParameterChar ':' = false := by decide +kernel
    have hrun := run_replace (p := isParameterChar) rest (t := ':' :: (w.raw ++ t)) hcolon
    have hw : Word.scan none (w.raw ++ t) = { w with rest := t } := Word.scan_replace none more h
    have hone : ¬ ((w.raw ++ t).head? == some ':') = true := by
      have hcolon : more.head?.any (· == ':') = false := by
        cases hm : more.head? <;> simp_all
      have hcolon := hword.any_head?_eq_false (by decide) hcolon
      intro he
      simp [beq_iff_eq.mp he] at hcolon
    simp only [List.cons_append, List.tail_cons, List.append_assoc, parameter, name, hrun,
      if_neg hone, hw]
  | case3 name colon hmore =>
    intro h
    refine parameter_of_run (hname h.meets) (h.meets.any_head?_eq_false (by decide) ?_)
    dsimp only
    cases hd : colon with
    | nil => rfl
    | cons c more =>
      have hc : c ≠ ':' := by
        rintro rfl
        exact hmore more hd
      simpa using hc

theorem parameter_head? (dash : Char) {rest : Text} (h : rest.head?.any startsParameter = true)
    (t : Text) : ((parameter dash rest).raw.tail ++ t).head? = rest.head? := by
  cases rest with
  | nil => cases h
  | cons d rest =>
    have hd : (d :: rest).takeWhile isParameterChar = d :: rest.takeWhile isParameterChar := by
      rw [List.takeWhile_cons, if_pos (isParameterChar_of_startsParameter h)]
    unfold parameter
    dsimp only
    split
    · split <;> simp [hd]
    · simp [hd]

theorem scan_raw_eq_cons {c : Char} {rest : Text} (hb : isBlank c = false) :
    (scan c rest).raw = c :: (scan c rest).raw.tail :=
  eq_cons_tail (scan_raw_append_rest c rest) (scan_raw_length_pos hb)

theorem scan_tail_append_rest {c : Char} (hb : isBlank c = false) (rest : Text) :
    (scan c rest).raw.tail ++ (scan c rest).rest = rest := by
  have happend := scan_raw_append_rest c rest
  rw [scan_raw_eq_cons hb, List.cons_append] at happend
  exact (List.cons.inj happend).2

theorem scan_replace {c : Char} {rest t : Text} (hb : isBlank c = false)
    (h : Admits (scan c rest).rest t) :
    scan c ((scan c rest).raw.tail ++ t) = { scan c rest with rest := t } := by
  have hmeets : Meets rest ((scan c rest).raw.tail ++ t) := by
    have happend := h.meets.append (scan c rest).raw.tail
    rwa [scan_tail_append_rest hb] at happend
  revert h hmeets
  fun_cases scan c rest with
  | case1 ho =>
    intro h hmeets
    rw [scan, if_pos ho]
    exact operator_replace h.meets
  | case2 ho hs =>
    intro h hmeets
    rw [scan, if_neg ho, if_pos hs]
    have := Quotation.verbatim_replace (s := rest) h.meets
    simp only [quoted, List.tail_cons, this]
  | case3 ho hs hd =>
    intro h hmeets
    rw [scan, if_neg ho, if_neg hs, if_pos hd]
    have := Quotation.expandable_replace (s := rest) h.meets
    simp only [quoted, List.tail_cons, this]
  | case4 ho hs hd hdollar r hr =>
    intro h hmeets
    have := Reference.scan?_replace hr h.meets
    rw [scan, if_neg ho, if_neg hs, if_neg hd, if_pos hdollar]
    simp only [reference, List.tail_cons, this]
  | case5 ho hs hd hdollar hr =>
    intro h hmeets
    rw [scan, if_neg ho, if_neg hs, if_neg hd, if_pos hdollar,
      Reference.scan?_eq_none_of_meets hr hmeets]
    exact word_replace hb (by simpa using ho) h
  | case6 ho hs hd hdollar hdash =>
    intro h hmeets
    have hname := parameter_head? c (Bool.and_eq_true_iff.mp hdash).2 t
    rw [scan, if_neg ho, if_neg hs, if_neg hd, if_neg hdollar, hname, if_pos hdash]
    exact parameter_replace h
  | case7 ho hs hd hdollar hdash =>
    intro h hmeets
    have hdash' : ¬ (isDash c && ((word (c :: rest)).raw.tail ++ t).head?.any startsParameter) =
        true := by
      intro hboth
      obtain ⟨hc, hany⟩ := Bool.and_eq_true_iff.mp hboth
      have hnone : rest.head?.any startsParameter = false := by simpa [hc] using hdash
      rw [hmeets.any_head?_eq_false (by decide +kernel) hnone] at hany
      cases hany
    rw [scan, if_neg ho, if_neg hs, if_neg hd, if_neg hdollar, if_neg hdash']
    exact word_replace hb (by simpa using ho) h

end Lexeme

end CommandShell
