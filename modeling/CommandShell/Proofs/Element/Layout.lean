import CommandShell.Element.Basic
import CommandShell.Proofs.Token.Tiling

/-!
Where elements lie. Tokens that follow one another in a text make elements that cover them, list
separators included.
-/

set_option autoImplicit false

namespace CommandShell

/-- A token in a text of length `n`. A parameter has its dash besides its name. -/
structure Token.Within (n : Nat) (t : Token) : Prop where
  start_lt : t.start < t.stop
  stop_le : t.stop ≤ n
  name_lt : t.kind = .parameter → t.value.length < t.text.length

structure Token.Laid (n : Nat) (tokens : List Token) : Prop where
  within : ∀ t ∈ tokens, t.Within n
  ordered : tokens.Pairwise fun t u => t.stop ≤ u.start

theorem Token.Laid.sublist {n : Nat} {ts us : List Token} (h : Laid n us) (hs : ts.Sublist us) :
    Laid n ts :=
  ⟨fun t ht => h.within t (hs.subset ht), h.ordered.sublist hs⟩

theorem Token.Laid.tail {n : Nat} {t : Token} {ts : List Token} (h : Laid n (t :: ts)) :
    Laid n ts := h.sublist (List.sublist_cons_self t ts)

theorem Token.Laid.stop_le {n : Nat} {t u : Token} {ts : List Token} (h : Laid n (t :: ts))
    (hu : u ∈ ts) : t.stop ≤ u.start := (List.pairwise_cons.mp h.ordered).1 u hu

theorem Lexeme.parameter_name_lt (dash : Char) (s : Text) :
    (parameter dash s).value.length < (parameter dash s).raw.length := by
  fun_cases parameter dash s with
  | case1 => simp +zetaDelta
  | case2 => simp only [List.cons_append, List.length_cons, List.length_append]; omega
  | case3 => simp +zetaDelta

theorem Lexeme.scan_name_lt {c : Char} {rest : Text} (h : (scan c rest).kind = .parameter) :
    (scan c rest).value.length < (scan c rest).raw.length := by
  have hword := word_kind (c :: rest)
  revert h
  fun_cases scan c rest with
  | case1 => simp [operator_kind]
  | case2 | case3 => simp [quoted]
  | case4 => simp [reference]
  | case6 => exact fun _ => parameter_name_lt c rest
  | case5 | case7 => rcases hword with h | h <;> simp [h]

theorem Token.laid_scanAll (s : Text) :
    Laid s.length ((Lexeme.scanAll 0 s).map Token.ofLexeme) := by
  have ht := tiling_scanAll s
  refine ⟨fun t hm => ⟨(ht.bounds t hm).1, (ht.bounds t hm).2, ?_⟩, ht.ordered⟩
  obtain ⟨p, hp, rfl⟩ := List.mem_map.mp hm
  obtain ⟨c, rest, -, hl⟩ := Lexeme.exists_scan_of_mem hp
  simpa [Token.ofLexeme, hl] using @Lexeme.scan_name_lt c rest

namespace Element

/-- An element in a text of length `n`. The dash and the name of a parameter end in it. -/
structure Within (n : Nat) (e : Element) : Prop where
  start_le : e.start ≤ e.stop
  stop_le : e.stop ≤ n
  parts : ∀ t ∈ e.parts, e.start ≤ t.start ∧ t.start ≤ t.stop ∧ t.stop ≤ e.stop
  name_le : e.isParameter = true → e.start + 1 + e.text.length ≤ e.stop

theorem ofParts_stop (first : Token) (others : List Token) (stop : Option Nat) :
    (ofParts first others stop).stop = stop.getD ((others.getLast?.getD first).stop) := rfl

/-- What `listTail` takes lies between the first part and the end of the value. -/
structure TailWithin (n : Nat) (first : Token) (others : List Token) (stop : Nat) : Prop where
  first_le : first.stop ≤ stop
  stop_le : stop ≤ n
  others : ∀ t ∈ others, first.stop ≤ t.start ∧ t.start ≤ t.stop ∧ t.stop ≤ stop

theorem TailWithin.alone {n : Nat} {first : Token} {stop : Nat} (hf : first.stop ≤ stop)
    (hn : stop ≤ n) : TailWithin n first [] stop := ⟨hf, hn, by simp⟩

theorem listTail_within {n : Nat} {first : Token} {rest : List Token}
    (h : Token.Laid n (first :: rest)) : TailWithin n first (listTail rest).1
      (ofParts first (listTail rest).1 (listTail rest).2.1).stop := by
  have hfirst := h.within first (by simp)
  fun_induction listTail rest generalizing first with
  | case1 => exact .alone (Nat.le_refl _) hfirst.stop_le
  | case2 t ht =>
    have hle := h.stop_le (u := t) (by simp)
    have hwithin := h.within t (by simp)
    exact .alone (Nat.le_trans hle (Nat.le_of_lt hwithin.start_lt)) hwithin.stop_le
  | case3 => exact .alone (Nat.le_refl _) hfirst.stop_le
  | case4 t next rest ht hnext others stop left heq ih =>
    have hcomma := h.stop_le (u := t) (by simp)
    have hle := h.tail.stop_le (u := next) (by simp)
    have hlt := (h.within t (by simp)).start_lt
    have hwithin := h.within next (by simp)
    have htail : TailWithin n next others (ofParts next others stop).stop := by
      simpa only [heq] using ih h.tail.tail hwithin
    have hstop : (ofParts first (next :: others) stop).stop = (ofParts next others stop).stop := by
      rw [ofParts_stop, ofParts_stop, List.getLast?_cons, Option.getD_some]
    rw [hstop]
    have hnextstop := htail.first_le
    have hstart := hwithin.start_lt
    refine ⟨by omega, htail.stop_le, fun u hu => ?_⟩
    rcases List.mem_cons.mp hu with rfl | hu
    · exact ⟨by omega, by omega, hnextstop⟩
    · have := htail.others u hu
      omega
  | case5 t next rest ht hnext =>
    have hle := h.stop_le (u := t) (by simp)
    have hwithin := h.within t (by simp)
    exact .alone (Nat.le_trans hle (Nat.le_of_lt hwithin.start_lt)) hwithin.stop_le
  | case6 => exact .alone (Nat.le_refl _) hfirst.stop_le

theorem listTail_left_sublist (rest : List Token) : (listTail rest).2.2.Sublist rest := by
  fun_induction listTail rest with
  | case1 => exact .slnil
  | case2 t => exact List.nil_sublist _
  | case3 => exact List.Sublist.refl _
  | case4 t next rest ht hnext others stop left heq ih =>
    rw [heq] at ih
    exact (ih.cons next).cons t
  | case5 => exact List.sublist_cons_self _ _
  | case6 => exact List.Sublist.refl _

theorem ofParts_within {n : Nat} {first : Token} {rest : List Token}
    (h : Token.Laid n (first :: rest)) :
    Within n (ofParts first (listTail rest).1 (listTail rest).2.1) := by
  have htail := listTail_within h
  have hlt := (h.within first (by simp)).start_lt
  have hle := htail.first_le
  have hstart : (ofParts first (listTail rest).1 (listTail rest).2.1).start = first.start := rfl
  refine ⟨by omega, htail.stop_le, fun t ht => ?_, fun hp => by cases hp⟩
  rw [hstart]
  rcases List.mem_cons.mp ht with rfl | ht
  · omega
  · have := htail.others t ht
    omega

theorem parameter_within {n : Nat} {t : Token} (h : t.Within n) (hk : t.kind = .parameter) :
    Within n (.parameter t t.stop) := by
  have hname := h.name_lt hk
  have hlt := h.start_lt
  have hstop : t.stop = t.start + t.text.length := rfl
  refine ⟨Nat.le_of_lt hlt, h.stop_le, fun u hu => ?_, fun _ => ?_⟩
  · obtain rfl := List.mem_singleton.mp hu
    exact ⟨Nat.le_refl _, Nat.le_of_lt hlt, Nat.le_refl _⟩
  · rw [text_parameter]
    change t.start + 1 + t.value.length ≤ t.stop
    omega

theorem ofTokens_within {n : Nat} {tokens : List Token} (h : Token.Laid n tokens) :
    ∀ e ∈ ofTokens tokens, e.Within n := by
  fun_induction ofTokens tokens with
  | case1 => simp
  | case2 t rest _ ih => exact ih h.tail
  | case3 t rest _ hk ih =>
    intro e he
    rcases List.mem_cons.mp he with rfl | he
    · exact parameter_within (h.within t (by simp)) (by simpa using hk)
    · exact ih h.tail e he
  | case4 t rest _ _ ih =>
    intro e he
    rcases List.mem_cons.mp he with rfl | he
    · exact ofParts_within h
    · exact ih (h.tail.sublist (listTail_left_sublist rest)) e he

theorem contains_of_indexAt? {elements : List Element} {cursor : Int} {i : Nat}
    (h : indexAt? elements cursor = some i) :
    ∃ e, elements[i]? = some e ∧ e.contains cursor = true := by
  unfold indexAt? at h
  split at h
  · cases h
  · obtain ⟨⟨e, j⟩, hlast, rfl⟩ := Option.map_eq_some_iff.mp h
    obtain ⟨hmem, hc⟩ := List.mem_filter.mp (List.mem_of_getLast? hlast)
    exact ⟨e, List.mem_zipIdx_iff_getElem?.mp hmem, hc⟩

theorem contains_iff {e : Element} {cursor : Nat} :
    e.contains cursor = true ↔ e.start ≤ cursor ∧ cursor ≤ e.stop := by
  simp [contains]

end Element

end CommandShell
