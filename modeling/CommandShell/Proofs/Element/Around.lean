import CommandShell.Proofs.Completion.Ending
import CommandShell.Proofs.Statement.Append

/-!
A token in the midst of a line: the statement around it, and the elements in front of it.
-/

set_option autoImplicit false

namespace CommandShell

namespace Statement

variable {ts us : List Token} {t : Token}

/-- Around a token that ends no statement, the statement begins with what is behind the last
boundary in front of it. -/
theorem at?_around {n : Nat} (hlaid : Token.Laid n (ts ++ t :: us))
    (hkinds : ∀ u ∈ ts ++ t :: us, u.kind ≠ .endOfInput) (ht : isBoundary t = false) {cursor : Nat}
    (hstart : t.start ≤ cursor) (hstop : cursor ≤ t.stop) :
    ∃ tail, at? (ts ++ t :: us) cursor = final ts ++ t :: tail := by
  have hfront : ∀ u ∈ ts, u.kind ≠ .endOfInput := fun u hu => hkinds u (List.mem_append_left _ hu)
  have hback : ∀ u ∈ t :: us, u.kind ≠ .endOfInput := fun u hu =>
    hkinds u (List.mem_append_right _ hu)
  have htk : (t.kind == .endOfInput) = false := by simpa using hback t (by simp)
  obtain ⟨tokens, later, htokens⟩ := exists_segments us
  have hown (start : Nat) : segments start (t :: us) = (start, t :: tokens) :: later := by
    rw [segments, if_neg (by simp [htk]), if_neg (by simp [ht]), htokens]
  obtain ⟨front, first, last, hts, hall⟩ := segments_append_front hfront hown 0
  have hfinal : final ts = last := by
    rw [final, hts, List.getLast?_concat]
    rfl
  -- the statements in front begin before the token, and those behind it after the cursor
  have hbefore : first ≤ cursor := by
    have hmem : first ∈ (segments 0 ts).map (·.1) := by simp [hts]
    rw [segments_map_fst hfront] at hmem
    rcases List.mem_cons.mp hmem with rfl | hmem
    · exact Nat.zero_le _
    · obtain ⟨u, hu, rfl⟩ := List.mem_map.mp hmem
      have := (List.pairwise_append.mp hlaid.ordered).2.2 u (List.mem_filter.mp hu).1 t (by simp)
      omega
  have hafter : ∀ segment ∈ later, ¬ segment.1 ≤ cursor := by
    intro segment hsegment
    have hmem : segment.1 ∈ later.map (·.1) := List.mem_map_of_mem hsegment
    have hstarts := segments_map_fst hback 0
    rw [hown, List.map_cons, List.filter_cons_of_neg (by simp [ht])] at hstarts
    rw [(List.cons.inj hstarts).2] at hmem
    obtain ⟨u, hu, hstop'⟩ := List.mem_map.mp hmem
    have huin := (List.mem_filter.mp hu).1
    have hsub := hlaid.sublist (List.sublist_append_right ts _)
    have := hsub.stop_le huin
    have := (hsub.within u (List.mem_cons_of_mem _ huin)).start_lt
    omega
  have hnone : later.filter (fun segment => decide ((segment.1 : Int) ≤ cursor)) = [] :=
    List.filter_eq_nil_iff.mpr fun segment hsegment => by simpa using hafter segment hsegment
  refine ⟨tokens, ?_⟩
  rw [at?, hall, List.filter_append, List.filter_cons_of_pos (by simpa using hbefore),
    hnone, List.getLast?_concat, hfinal]

theorem at?_scan_around {line : Text} (h : Token.ofText line = ts ++ t :: us)
    (ht : isBoundary t = false) {cursor : Nat} (hstart : t.start ≤ cursor)
    (hstop : cursor ≤ t.stop) :
    ∃ tail, at? (Token.scan line) cursor = final ts ++ t :: tail := by
  have hscan : Token.scan line = Token.ofText line ++ [Token.finish line.length] := rfl
  have hat : at? (Token.scan line) cursor = at? (Token.ofText line) cursor := by
    rw [hscan, at?, at?, segments_finish]
  have hlaid : Token.Laid line.length (Token.ofText line) := Token.laid_scanAll line
  have hkinds : ∀ u ∈ Token.ofText line, u.kind ≠ .endOfInput := fun _ =>
    Token.kind_ne_of_mem_ofText
  rw [hat]
  rw [h] at hlaid hkinds ⊢
  exact at?_around hlaid hkinds ht hstart hstop

end Statement

namespace Element

variable {n : Nat} {t u : Token} {fs rest tail others left : List Token} {stop : Option Nat}
  {before after : List Element} {e : Element}

theorem Joins.split (h : Joins u (rest ++ t :: tail) others stop left)
    (ht : t.isOperator [','] = false) :
    t ∈ others ∨ ∃ middle, left = middle ++ t :: tail ∧ Joins u rest others stop middle := by
  generalize hall : rest ++ t :: tail = all at h
  induction h generalizing rest with
  | done hr =>
    subst hall
    refine .inr ⟨rest, rfl, .done fun v hv => ?_⟩
    obtain ⟨more, rfl⟩ := List.head?_eq_some_iff.mp hv
    exact hr v rfl
  | trailing hc hl =>
    cases rest with
    | nil =>
      obtain ⟨rfl, -⟩ := List.cons.inj hall
      rw [hc] at ht
      cases ht
    | cons comma rest =>
      obtain ⟨rfl, rfl⟩ := List.cons.inj hall
      refine .inr ⟨rest, rfl, .trailing hc fun v hv => ?_⟩
      obtain ⟨more, rfl⟩ := List.head?_eq_some_iff.mp hv
      exact hl v rfl
  | next hc hv _ ih =>
    match rest, hall with
    | [], hall =>
      obtain ⟨rfl, -⟩ := List.cons.inj hall
      rw [hc] at ht
      cases ht
    | [comma], hall =>
      obtain ⟨-, hall⟩ := List.cons.inj hall
      obtain ⟨rfl, -⟩ := List.cons.inj hall
      exact .inl List.mem_cons_self
    | first :: second :: rest, hall =>
      obtain ⟨hfirst, hbehind⟩ := List.cons.inj hall
      obtain ⟨hsecond, hrest⟩ := List.cons.inj hbehind
      subst hfirst hsecond
      exact (ih hrest).imp (List.mem_cons_of_mem _) fun ⟨middle, hleft, hjoins⟩ =>
        ⟨middle, hleft, .next hc hv hjoins⟩

theorem ofTokens_split (fs : List Token) (hlaid : Token.Laid n (fs ++ t :: tail))
    (ht : t.isOperator [','] = false)
    (hbegins : t.kind = .parameter ∨ ∃ e ∈ ofTokens (fs ++ t :: tail), e.start = t.start) :
    ofTokens (fs ++ t :: tail) = ofTokens fs ++ ofTokens (t :: tail) := by
  match fs with
  | [] => rw [ofTokens_nil, List.nil_append, List.nil_append]
  | u :: rest =>
    have hu : u.start < t.start := by
      have hle := hlaid.stop_le (u := t) (by simp)
      have hlt := (hlaid.within u (by simp)).start_lt
      omega
    -- an element that begins with the token is none that begins in front of it
    have hlater {e : Element} {es : List Element} (he : e.start = u.start)
        (h : ofTokens (u :: rest ++ t :: tail) = e :: es) :
        t.kind = .parameter ∨ ∃ e ∈ es, e.start = t.start := by
      refine hbegins.imp_right fun ⟨f, hf, hstart⟩ => ?_
      rw [h] at hf
      rcases List.mem_cons.mp hf with rfl | hf
      · omega
      · exact ⟨f, hf, hstart⟩
    rw [List.cons_append] at hlaid hlater hbegins ⊢
    by_cases hk : u.kind = .endOfInput ∨ u.kind = .operator
    · rw [ofTokens_skip hk] at hbegins
      rw [ofTokens_skip hk, ofTokens_skip hk, ofTokens_split _ hlaid.tail ht hbegins]
    by_cases hp : u.kind = .parameter
    · have hall := ofTokens_parameter hp (rest ++ t :: tail)
      rw [hall, ofTokens_parameter hp, ofTokens_split _ hlaid.tail ht (hlater rfl hall),
        List.cons_append]
    · have hvalue : continuesList u = true :=
        continuesList_iff.mpr ⟨hp, fun h => hk (.inr h), fun h => hk (.inl h)⟩
      obtain ⟨others, stop, left, hjoins⟩ : ∃ others stop left,
        Joins u (rest ++ t :: tail) others stop left := ⟨_, _, _, joins_listTail u _⟩
      have hall := hjoins.ofTokens_eq hvalue
      rcases hjoins.split ht with hmem | ⟨middle, rfl, hfront⟩
      · -- a token that is joined begins no element
        exfalso
        obtain ⟨-, hcontinues⟩ := hjoins.others_mem t hmem
        rcases hlater rfl hall with hparameter | ⟨f, hf, hstart⟩
        · exact (continuesList_iff.mp hcontinues).1 hparameter
        · obtain ⟨v, hv, hvstart⟩ := exists_start_of_mem hf
          have hstop := hjoins.stop_le hlaid v hv
          have hwithin := (ofParts_within hlaid).parts t (by
            rw [hjoins.listTail_eq]
            exact List.mem_cons_of_mem u hmem)
          rw [hjoins.listTail_eq] at hwithin
          have := (hlaid.within t (by simp)).start_lt
          dsimp only at hwithin
          omega
      · have hshort := hfront.left_sublist.length_le
        rw [hall, hfront.ofTokens_eq hvalue,
          ofTokens_split _ (hlaid.tail.sublist hjoins.left_sublist) ht (hlater rfl hall),
          List.cons_append]
termination_by fs.length
decreasing_by
  all_goals
    simp only [List.length_cons]
    omega

theorem ofTokens_before_parameter (hlaid : Token.Laid n (fs ++ t :: tail))
    (ht : t.kind = .parameter) :
    ofTokens (fs ++ t :: tail) = ofTokens fs ++ .parameter t t.stop :: ofTokens tail := by
  rw [ofTokens_split _ hlaid (Token.isOperator_eq_false (by simp [ht])) (.inl ht),
    ofTokens_parameter ht]

theorem starts_ofTokens {ts : List Token} (h : Token.Laid n ts) :
    (ofTokens ts).Pairwise fun e f => e.start < f.start := by
  refine (ofTokens_ordered h).imp_of_mem fun he _ hle => ?_
  have := ofTokens_start_lt h _ he
  omega

theorem filter_starts (h : (before ++ e :: after).Pairwise fun x y => x.start < y.start) :
    (before ++ e :: after).filter (fun x => decide (x.start < e.start)) = before := by
  obtain ⟨-, hback, hfront⟩ := List.pairwise_append.mp h
  rw [List.filter_append, List.filter_eq_self.mpr, List.filter_eq_nil_iff.mpr, List.append_nil]
  · refine List.forall_mem_cons.mpr ⟨by simp, fun x hx => ?_⟩
    have := (List.pairwise_cons.mp hback).1 x hx
    simp only [decide_eq_true_eq]
    omega
  · exact fun x hx => decide_eq_true (hfront x hx e (by simp))

theorem ofTokens_before (hlaid : Token.Laid n (fs ++ t :: tail)) (ht : t.IsOperand)
    (h : ofTokens (fs ++ t :: tail) = before ++ e :: after) (hstart : e.start = t.start) :
    before = ofTokens fs := by
  obtain ⟨first, more, hfirst, hsame⟩ : ∃ first more, ofTokens (t :: tail) = first :: more ∧
      first.start = t.start := by
    by_cases hp : t.kind = .parameter
    · exact ⟨_, _, ofTokens_parameter hp tail, rfl⟩
    · exact ⟨_, _, ofTokens_value (continuesList_iff.mpr ⟨hp, ht⟩) tail, rfl⟩
  have hsplit := ofTokens_split _ hlaid (Token.isOperator_eq_false ht.1)
    (.inr ⟨e, by simp [h], hstart⟩)
  rw [hfirst, h] at hsplit
  have hstarts := starts_ofTokens hlaid
  rw [h] at hstarts
  have hfront := filter_starts hstarts
  rwa [hsplit, hstart, ← hsame, filter_starts (hsplit ▸ hstarts), eq_comm] at hfront

end Element

end CommandShell
