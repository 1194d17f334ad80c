import CommandShell.Completion
import CommandShell.Proofs.Statement.Segments

/-!
The span that a completion replaces lies in the line and contains the cursor.
-/

set_option autoImplicit false

namespace CommandShell

namespace Completion

variable {σ : Type}

/-- The span in a line of length `n` that contains the cursor. -/
structure Spans (c : Completion) (cursor n : Nat) : Prop where
  start_le : c.start ≤ cursor
  le_stop : cursor ≤ c.start + c.length
  stop_le : c.start + c.length ≤ n

/-- Separators and word characters are no commas, so member names end before the first of these. -/
theorem memberNameLength_le (fuel : Nat) (s : Text) :
    memberNameLength fuel s ≤ (s.takeWhile (· != ',')).length := by
  have hword (s : Text) : ∀ c ∈ s.takeWhile Text.isWord, (c != ',') = true := by
    have hcomma : Text.isWord ',' = false := by decide +kernel
    intro c hc
    have hall := List.all_eq_true.mp (List.all_takeWhile (p := Text.isWord) (l := s)) c hc
    rw [bne_iff_ne]
    rintro rfl
    rw [hcomma] at hall
    cases hall
  induction fuel generalizing s with
  | zero => simp [memberNameLength]
  | succ fuel ih =>
    have hstep (s : Text) : (s.takeWhile Text.isWord).length
          + memberNameLength fuel (s.drop (s.takeWhile Text.isWord).length)
        ≤ (s.takeWhile (· != ',')).length := by
      have hsplit : s = s.takeWhile Text.isWord ++ s.drop (s.takeWhile Text.isWord).length := by
        conv => lhs; rw [← List.take_append_drop (s.takeWhile Text.isWord).length s]
        rw [← List.prefix_iff_eq_take.mp (List.takeWhile_prefix Text.isWord)]
      have htake := congrArg (List.takeWhile (· != ',')) hsplit
      rw [List.takeWhile_append_of_pos (hword s)] at htake
      rw [htake, List.length_append]
      exact Nat.add_le_add_left (ih _) _
    unfold memberNameLength
    dsimp only
    split
    · rename_i rest
      have := hstep rest
      simp
      omega
    · rename_i rest
      have := hstep rest
      simp
      omega
    · simp

theorem takeWhile_line_length_le (first : Text) (others : List Text) :
    ((first ++ others.flatMap ([','] ++ ·)).takeWhile (· != ',')).length ≤ first.length := by
  induction first with
  | nil => cases others <;> simp
  | cons c first ih =>
    by_cases hc : c = ','
    · simp [hc]
    · simpa [hc] using ih

theorem exists_first_of_memberName? {e : Element} {length : Nat}
    (h : memberName? e = some length) :
    ∃ first, e.parts.head? = some first ∧ length ≤ first.text.length := by
  unfold memberName? at h
  split at h
  · cases h
  · rename_i k hk
    obtain rfl := Option.some.inj h
    have hle := memberNameLength_le e.raw.length e.raw
    rw [hk] at hle
    cases hp : e.parts with
    | nil => simp [Element.raw, hp] at hle
    | cons first others =>
      have hraw : (e.raw.takeWhile (· != ',')).length ≤ first.text.length := by
        rw [Element.raw, hp, List.map_cons, Text.join_cons]
        exact takeWhile_line_length_le _ _
      exact ⟨first, rfl, Nat.le_trans hle hraw⟩

theorem memberName?_le {e : Element} {n length : Nat} (h : e.Within n)
    (hm : memberName? e = some length) : e.start + length ≤ e.stop := by
  obtain ⟨first, hfirst, hle⟩ := exists_first_of_memberName? hm
  obtain ⟨hstart, -, hstop⟩ := h.parts first (List.mem_of_mem_head? hfirst)
  have : first.stop = first.start + first.text.length := rfl
  omega

theorem withCursorElement_within {elements : List Element} {cursor n : Nat} (hn : cursor ≤ n)
    (h : ∀ e ∈ elements, e.Within n) : ∀ e ∈ withCursorElement elements cursor, e.Within n := by
  have hnew : Element.Within n (.value [] cursor cursor) :=
    ⟨Nat.le_refl _, hn, by simp [Element.parts], fun hp => by cases hp⟩
  unfold withCursorElement
  intro e he
  split at he
  · exact h e he
  · simp only [List.mem_append, List.mem_filter, List.mem_singleton] at he
    rcases he with (he | rfl) | he
    · exact h e he.1
    · exact hnew
    · exact h e he.1

theorem dashAsParameter_within {cursor n : Nat} {e : Element} (h : e.Within n) :
    (dashAsParameter cursor e).Within n := by
  fun_cases dashAsParameter cursor e with
  | case1 t start stop c ht hc =>
    obtain ⟨hstart, hlt, hle⟩ := h.parts t (List.mem_singleton_self t)
    have hstop : t.stop = t.start + 1 := by simp [Token.stop, ht]
    refine ⟨Nat.le_trans hlt hle, h.stop_le, fun u hu => ?_, fun _ => ?_⟩
    · obtain rfl := List.mem_singleton.mp hu
      exact ⟨Nat.le_refl _, hlt, hle⟩
    · rw [Element.text_parameter]
      change t.start + 1 + 0 ≤ stop
      have : t.stop ≤ stop := hle
      omega
  | case2 => exact h
  | case3 => exact h
  | case4 => exact h

@[simp] theorem offering_start (c : Completion) (ranked : Except Raised (List Candidate)) :
    (c.offering ranked).start = c.start := by
  cases ranked <;> rfl

@[simp] theorem offering_length (c : Completion) (ranked : Except Raised (List Candidate)) :
    (c.offering ranked).length = c.length := by
  cases ranked <;> rfl

theorem values_start (context : Context σ) (command : Option (Command σ)) (b : Binding)
    (span : ValueSpan) : (values context command b span).start = span.start := by
  fun_cases values context command b span <;> first | rfl | exact offering_start ..

theorem values_length (context : Context σ) (command : Option (Command σ)) (b : Binding)
    (span : ValueSpan) : (values context command b span).length = span.length := by
  fun_cases values context command b span <;> first | rfl | exact offering_length ..

theorem memberNames_start (context : Context σ) (line : Text) (parameter adjacent : Element)
    (length cursor : Nat) :
    (memberNames context line parameter adjacent length cursor).start = parameter.start := by
  fun_cases memberNames context line parameter adjacent length cursor <;>
    first | rfl | exact offering_start ..

theorem memberNames_length (context : Context σ) (line : Text) (parameter adjacent : Element)
    (length cursor : Nat) :
    (memberNames context line parameter adjacent length cursor).length =
      adjacent.start + length - parameter.start := by
  fun_cases memberNames context line parameter adjacent length cursor <;>
    first | rfl | exact offering_length ..

theorem parameterNames_start (context : Context σ) (line : Text) (e : Element) (cursor : Nat)
    (command : Option (Command σ)) (b : Binding) :
    (parameterNames context line e cursor command b).start = e.start := by
  cases command <;> first | rfl | exact offering_start ..

theorem parameterNames_length (context : Context σ) (line : Text) (e : Element) (cursor : Nat)
    (command : Option (Command σ)) (b : Binding) :
    (parameterNames context line e cursor command b).length = nameEnd e - e.start := by
  cases command <;> first | rfl | exact offering_length ..

section Branches

variable {context : Context σ} {line : Text} {e : Element} {cursor n : Nat}

theorem nothing_spans {start length : Nat} (hs : start ≤ cursor) (hc : cursor ≤ start + length)
    (hn : start + length ≤ n) : Spans (nothing start length) cursor n := ⟨hs, hc, hn⟩

theorem element_spans {c : Completion} (h : e.Within n) (hc : e.contains cursor = true)
    (hs : c.start = e.start) (hl : c.length = e.stop - e.start) : Spans c cursor n := by
  have := h.stop_le
  have := Element.contains_iff.mp hc
  constructor <;> omega

theorem parameterNames_spans (command : Option (Command σ)) (b : Binding) (h : e.Within n)
    (hp : e.isParameter = true) (hc : e.start ≤ cursor) (hn : cursor ≤ nameEnd e) :
    Spans (parameterNames context line e cursor command b) cursor n := by
  have hend : nameEnd e ≤ e.stop := h.name_le hp
  have hstop := h.stop_le
  constructor
  · rw [parameterNames_start]
    exact hc
  · rw [parameterNames_start, parameterNames_length]
    omega
  · rw [parameterNames_start, parameterNames_length]
    omega

theorem values_spans (command : Option (Command σ)) (b : Binding) {span : ValueSpan}
    (hs : span.start ≤ cursor) (hc : cursor ≤ span.start + span.length)
    (hn : span.start + span.length ≤ n) : Spans (values context command b span) cursor n := by
  constructor
  · rwa [values_start]
  · rwa [values_start, values_length]
  · rwa [values_start, values_length]

theorem inlineSpan_spans (command : Option (Command σ)) (b : Binding) {start : Nat}
    (h : e.Within n) (hs : start ≤ cursor) (hc : cursor ≤ e.stop) :
    Spans (values context command b (inlineSpan line e cursor start)) cursor n := by
  have hstop := h.stop_le
  apply values_spans
  · exact hs
  · simp only [inlineSpan]; omega
  · simp only [inlineSpan]; omega

theorem partSpan_spans (command : Option (Command σ)) (b : Binding) (h : e.Within n)
    (hc : cursor ≤ e.stop) :
    Spans (values context command b (partSpan line e cursor)) cursor n := by
  have hstop := h.stop_le
  unfold partSpan
  dsimp only
  split
  · apply values_spans
    · exact Nat.le_refl _
    · exact Nat.le_refl _
    · exact Nat.le_trans hc hstop
  · rename_i t ht
    have hmem := List.mem_filter.mp (List.mem_of_getLast? ht)
    have hin : t.start ≤ cursor ∧ cursor ≤ t.stop := by simpa using hmem.2
    have hle := (h.parts t hmem.1).2.2
    have hlen : t.stop = t.start + t.text.length := rfl
    apply values_spans
    · exact hin.1
    · exact hin.2
    · change t.stop ≤ n
      omega

theorem memberNames_spans {previous : Element} {length : Nat} (hp : previous.Within n)
    (he : e.Within n) (htouch : previous.stop = e.start) (hm : memberName? e = some length)
    (hs : e.start ≤ cursor) (hc : cursor ≤ e.start + length) :
    Spans (memberNames context line previous e length cursor) cursor n := by
  have hname := memberName?_le he hm
  have hle := hp.start_le
  have hn := he.stop_le
  constructor
  · rw [memberNames_start]
    omega
  · rw [memberNames_start, memberNames_length]
    omega
  · rw [memberNames_start, memberNames_length]
    omega

theorem Spans.noted {c : Completion} (h : Spans c cursor n) (diagnostics : List Diagnostic) :
    Spans { c with diagnostics := diagnostics } cursor n := ⟨h.start_le, h.le_stop, h.stop_le⟩

theorem argument_spans (elements : List Element) (command : Element) {previous : Element}
    (hp : previous.Within n) (he : e.Within n) (hc : e.contains cursor = true) :
    Spans (argument context line cursor elements command previous e) cursor n := by
  obtain ⟨hstart, hstop⟩ := Element.contains_iff.mp hc
  unfold argument
  apply Spans.noted
  split
  · rename_i length hm
    obtain ⟨htouch, hm⟩ := Option.ite_none_right_eq_some.mp hm
    simp only [Bool.and_eq_true, beq_iff_eq] at htouch
    split
    · rename_i hcursor
      exact memberNames_spans hp he htouch.1.2 hm hstart hcursor
    · exact inlineSpan_spans _ _ he (by omega) hstop
  · split
    · rename_i hparameter
      split
      · rename_i hcursor
        exact parameterNames_spans _ _ he hparameter hstart hcursor
      · exact inlineSpan_spans _ _ he (by omega) hstop
    · exact partSpan_spans _ _ he hstop

end Branches

theorem completeAt_spans (context : Context σ) (line : Text) {cursor : Nat}
    (hn : cursor ≤ line.length) : Spans (completeAt context line cursor) cursor line.length := by
  have helements := withCursorElement_within hn
    (Element.ofTokens_within (Statement.laid_at? line cursor))
  have hall : ∀ e ∈ (withCursorElement (Element.ofTokens (Statement.at? (Token.scan line) cursor))
      cursor).map (dashAsParameter cursor), e.Within line.length := by
    intro e he
    obtain ⟨typed, ht, rfl⟩ := List.mem_map.mp he
    exact dashAsParameter_within (helements typed ht)
  have hnothing : Spans (nothing cursor 0) cursor line.length :=
    nothing_spans (Nat.le_refl _) (Nat.le_refl _) hn
  unfold completeAt
  dsimp only
  generalize (withCursorElement (Element.ofTokens (Statement.at? (Token.scan line) cursor))
    cursor).map (dashAsParameter cursor) = elements at hall ⊢
  split
  · rename_i index command rest hindex
    split
    · rename_i e previous hi hprevious
      obtain ⟨e', hi', hc⟩ := Element.contains_of_indexAt? hindex
      obtain rfl : e' = e := Option.some.inj (hi'.symm.trans hi)
      have he := hall e' (List.mem_of_getElem? hi)
      split
      · exact element_spans he hc (offering_start ..) (offering_length ..)
      · split
        · exact element_spans he hc (offering_start ..) (offering_length ..)
        · exact argument_spans _ _ (hall previous (List.mem_of_getElem? hprevious)) he hc
    · exact hnothing
  · exact hnothing

theorem spans_complete (context : Context σ) (line : Text) (cursor : Int) :
    Spans (complete context line cursor) (min cursor.toNat line.length) line.length :=
  completeAt_spans context line (Nat.min_le_right _ _)

end Completion

end CommandShell
