import CommandShell.Proofs.Element.Layout
import CommandShell.Proofs.Element.Single

/-!
One more token at the end of a statement: it makes an element of its own, or it goes to the list
whose comma is the last token so far.
-/

set_option autoImplicit false

namespace CommandShell.Element

/-- How the tokens behind a value go on: `others` are joined to it, and `left` is left. Where a
comma joins nothing, `stop` is the end of it. -/
inductive Joins : Token → List Token → List Token → Option Nat → List Token → Prop where
  | done {t : Token} {rest : List Token} : (∀ u ∈ rest.head?, u.isOperator [','] = false) →
      Joins t rest [] none rest
  | trailing {t comma : Token} {left : List Token} : comma.isOperator [','] = true →
      (∀ u ∈ left.head?, continuesList u = false) →
      Joins t (comma :: left) [] (some comma.stop) left
  | next {t comma u : Token} {rest others left : List Token} {stop : Option Nat} :
      comma.isOperator [','] = true → continuesList u = true → Joins u rest others stop left →
      Joins t (comma :: u :: rest) (u :: others) stop left

theorem joins_listTail (t : Token) (rest : List Token) :
    Joins t rest (listTail rest).1 (listTail rest).2.1 (listTail rest).2.2 := by
  fun_induction listTail rest generalizing t with
  | case1 => exact .done (by simp)
  | case2 u hu => exact .trailing hu (by simp)
  | case3 u hu => exact .done (by simpa using hu)
  | case4 u next rest hu hnext others stop left heq ih =>
    rw [heq] at ih
    exact .next hu hnext (ih next)
  | case5 u next rest hu hnext => exact .trailing hu (by simpa using hnext)
  | case6 u next rest hu => exact .done (by simpa using hu)

variable {t a : Token} {rest others left : List Token} {stop : Option Nat}

theorem continuesList_of_not (hk : ¬ (t.kind == .endOfInput || t.kind == .operator) = true)
    (hp : ¬ (t.kind == .parameter) = true) : continuesList t = true := by
  simp only [Bool.or_eq_true, beq_iff_eq, not_or] at hk hp
  exact continuesList_iff.mpr ⟨hp, hk.2, hk.1⟩

theorem Joins.listTail_eq (h : Joins t rest others stop left) :
    listTail rest = (others, stop, left) := by
  induction h with
  | @done _ rest hr => exact listTail_of_head hr
  | @trailing t comma left hc hl =>
    cases left with
    | nil => simp [listTail, hc]
    | cons u left => simp [listTail, hc, hl u rfl]
  | next hc hu _ ih => simp [listTail, hc, hu, ih]

theorem Joins.ofTokens_eq (h : Joins t rest others stop left) (ht : continuesList t = true) :
    ofTokens (t :: rest) = ofParts t others stop :: ofTokens left := by
  rw [ofTokens_value ht, h.listTail_eq]

theorem Joins.append (h : Joins t rest others stop left) (ha : a.isOperator [','] = false)
    (hjoin : continuesList a = false ∨ left ≠ [] ∨ stop = none) :
    Joins t (rest ++ [a]) others stop (left ++ [a]) := by
  induction h with
  | @done _ rest hr =>
    refine .done fun u hu => ?_
    cases rest with
    | nil => exact Option.some.inj hu ▸ ha
    | cons b rest => exact hr u hu
  | @trailing t comma left hc hl =>
    refine .trailing hc fun u hu => ?_
    cases left with
    | nil => exact Option.some.inj hu ▸ hjoin.resolve_right (by simp)
    | cons b left => exact hl u hu
  | next hc hu _ ih => exact .next hc hu (ih hjoin)

theorem Joins.append_joined {n : Nat} (h : Joins t rest others (some n) [])
    (ha : continuesList a = true) : Joins t (rest ++ [a]) (others ++ [a]) none [] := by
  generalize hleft : ([] : List Token) = left at h
  generalize hstop : some n = stop at h
  induction h with
  | done => cases hstop
  | trailing hc _ =>
    subst hleft
    exact .next hc ha (.done (by simp))
  | next hc hu _ ih => exact .next hc hu (ih hleft hstop)

theorem Joins.exists_last (h : Joins t rest others stop left) :
    ∃ p, (t :: others).getLast? = some p ∧ (p :: left).Sublist (t :: rest) := by
  induction h with
  | @done t rest _ => exact ⟨t, rfl, List.Sublist.refl _⟩
  | @trailing t comma left _ _ => exact ⟨t, rfl, (List.sublist_cons_self ..).cons_cons t⟩
  | @next t comma u rest others left stop _ _ _ ih =>
    obtain ⟨p, hp, hsub⟩ := ih
    exact ⟨p, hp, (hsub.cons comma).cons t⟩

theorem Joins.exists_comma {n : Nat} (h : Joins t rest others (some n) left) :
    ∃ p comma, (t :: others).getLast? = some p ∧ comma.stop = n ∧
      (p :: comma :: left).Sublist (t :: rest) := by
  generalize hstop : some n = stop at h
  induction h with
  | done => cases hstop
  | @trailing t comma left _ _ =>
    exact ⟨t, comma, rfl, (Option.some.inj hstop).symm, List.Sublist.refl _⟩
  | @next t comma u rest others left stop _ _ _ ih =>
    obtain ⟨p, last, hp, hn, hsub⟩ := ih hstop
    exact ⟨p, last, hp, hn, (hsub.cons comma).cons t⟩

theorem Joins.left_sublist (h : Joins t rest others stop left) : left.Sublist rest := by
  obtain ⟨p, -, hsub⟩ := h.exists_last
  exact hsub.tail

def Closed (e : Element) : Prop := ∀ p ∈ e.parts.getLast?, p.stop = e.stop

/-- A value at the end of the statement will be an element of its own. -/
structure Apart (ts : List Token) : Prop where
  append : ∀ a, continuesList a = true →
    ofTokens (ts ++ [a]) = ofTokens ts ++ [.value [a] a.start a.stop]
  closed : ∀ e ∈ (ofTokens ts).getLast?,
    e.Closed ∨ ∃ comma u, [comma, u].Sublist ts ∧ comma.stop = e.stop

/-- A value at the end of the statement will go to its last list. -/
inductive Waiting (ts : List Token) : Prop where
  | intro {front : List Element} {parts : List Token} {p comma : Token} {start : Nat} :
      ofTokens ts = front ++ [.value (parts ++ [p]) start comma.stop] →
      [p, comma].Sublist ts →
      (∀ a, continuesList a = true →
        ofTokens (ts ++ [a]) = front ++ [.value (parts ++ [p, a]) start a.stop]) →
      Waiting ts

theorem Apart.cons {ts us : List Token} {es : List Element} (h : Apart ts) (hsub : ts.Sublist us)
    (hts : ofTokens us = es ++ ofTokens ts)
    (hes : ofTokens ts = [] → ∀ e ∈ es.getLast?,
      e.Closed ∨ ∃ comma u, [comma, u].Sublist us ∧ comma.stop = e.stop)
    (happend : ∀ a, continuesList a = true →
      ofTokens (us ++ [a]) = es ++ ofTokens (ts ++ [a])) : Apart us := by
  refine ⟨fun a ha => ?_, fun e he => ?_⟩
  · rw [happend a ha, h.append a ha, hts, List.append_assoc]
  · rw [hts] at he
    by_cases hnil : ofTokens ts = []
    · rw [hnil, List.append_nil] at he
      exact hes hnil e he
    · rw [List.getLast?_append, Option.or_of_isSome (by simpa using hnil)] at he
      refine (h.closed e he).imp id fun ⟨comma, u, hin, hstop⟩ => ⟨comma, u, hin.trans hsub, hstop⟩

theorem Waiting.cons {ts us : List Token} {es : List Element} (h : Waiting ts)
    (hsub : ts.Sublist us) (hts : ofTokens us = es ++ ofTokens ts)
    (happend : ∀ a, continuesList a = true →
      ofTokens (us ++ [a]) = es ++ ofTokens (ts ++ [a])) : Waiting us := by
  obtain ⟨heq, hin, ha⟩ := h
  refine .intro (by rw [hts, heq, List.append_assoc]) (hin.trans hsub) fun a hc => ?_
  rw [happend a hc, ha a hc, List.append_assoc]

theorem isOperator_of_continuesList (ha : continuesList a = true) (sign : Text) :
    a.isOperator sign = false := Token.isOperator_eq_false (continuesList_iff.mp ha).2.1

theorem Joins.waiting {n : Nat} (h : Joins t rest others (some n) [])
    (ht : continuesList t = true) : Waiting (t :: rest) := by
  obtain ⟨p, comma, hp, rfl, hsub⟩ := h.exists_comma
  obtain ⟨parts, hparts⟩ := List.getLast?_eq_some_iff.mp hp
  have hall : ofTokens (t :: rest) = [] ++ [.value (parts ++ [p]) t.start comma.stop] := by
    rw [h.ofTokens_eq ht, ofTokens_nil, ofParts, hparts]
    rfl
  refine .intro hall hsub fun a ha => ?_
  rw [List.cons_append, (h.append_joined ha).ofTokens_eq ht, ofTokens_nil, ofParts,
    ← List.cons_append, hparts, List.append_assoc, List.getLast?_concat]
  rfl

theorem Joins.closed (h : Joins t rest others stop left) (hleft : left ≠ [] ∨ stop = none) :
    (ofParts t others stop).Closed ∨
      ∃ comma u, [comma, u].Sublist (t :: rest) ∧ comma.stop = (ofParts t others stop).stop := by
  cases stop with
  | none =>
    refine .inl fun p hp => ?_
    have hlast : (t :: others).getLast? = some p := hp
    rw [List.getLast?_cons] at hlast
    rw [ofParts_stop, Option.getD_none, Option.some.inj hlast]
  | some n =>
    obtain ⟨p, comma, -, hn, hsub⟩ := h.exists_comma
    obtain ⟨u, left, rfl⟩ := List.exists_cons_of_ne_nil (hleft.resolve_right (by simp))
    refine .inr ⟨comma, u, .trans ?_ hsub, hn⟩
    exact ((List.nil_sublist left).cons_cons u).cons_cons comma |>.cons p

theorem apart_or_waiting (ts : List Token) : Apart ts ∨ Waiting ts := by
  fun_induction ofTokens ts with
  | case1 =>
    refine .inl ⟨fun a ha => ?_, by simp [ofTokens_nil]⟩
    rw [List.nil_append, ofTokens_single ha (by simp), ofTokens_nil, List.nil_append]
  | case2 t rest hk ih =>
    have hskip : t.kind = .endOfInput ∨ t.kind = .operator := by simpa using hk
    have hsub := List.sublist_cons_self t rest
    have happend (a : Token) (_ : continuesList a = true) :
        ofTokens (t :: rest ++ [a]) = [] ++ ofTokens (rest ++ [a]) := ofTokens_skip hskip _
    exact ih.imp (fun h => h.cons hsub (ofTokens_skip hskip _) (by simp) happend)
      fun h => h.cons hsub (ofTokens_skip hskip _) happend
  | case3 t rest _ hk ih =>
    have hp : t.kind = .parameter := by simpa using hk
    have hsub := List.sublist_cons_self t rest
    have happend (a : Token) (_ : continuesList a = true) : ofTokens (t :: rest ++ [a]) =
        [.parameter t t.stop] ++ ofTokens (rest ++ [a]) := ofTokens_parameter hp _
    refine ih.imp (fun h => h.cons hsub (ofTokens_parameter hp _) (fun _ e he => .inl ?_) happend)
      fun h => h.cons hsub (ofTokens_parameter hp _) happend
    obtain rfl := Option.some.inj he
    rintro p ⟨⟩
    rfl
  | case4 t rest hk hp ih =>
    have ht := continuesList_of_not hk hp
    have hjoins := joins_listTail t rest
    generalize (listTail rest).1 = others at hjoins
    generalize (listTail rest).2.1 = stop at hjoins
    generalize (listTail rest).2.2 = left at hjoins ih
    by_cases hwaiting : left = [] ∧ stop.isSome
    · -- the comma is the last token
      obtain ⟨rfl, hstop⟩ := hwaiting
      obtain ⟨n, rfl⟩ := Option.isSome_iff_exists.mp hstop
      exact .inr (hjoins.waiting ht)
    · have hleft : left ≠ [] ∨ stop = none := by
        by_cases hnil : left = []
        · exact .inr (by simpa [hnil] using hwaiting)
        · exact .inl hnil
      have hsub := hjoins.left_sublist.cons t
      have happend (a : Token) (ha : continuesList a = true) : ofTokens (t :: rest ++ [a]) =
          [ofParts t others stop] ++ ofTokens (left ++ [a]) :=
        (hjoins.append (isOperator_of_continuesList ha _) (.inr hleft)).ofTokens_eq ht
      refine ih.imp (fun h => h.cons hsub (hjoins.ofTokens_eq ht) (fun _ e he => ?_) happend)
        fun h => h.cons hsub (hjoins.ofTokens_eq ht) happend
      obtain rfl := Option.some.inj he
      exact hjoins.closed hleft

theorem ofTokens_append_parameter (ts : List Token) (ha : a.kind = .parameter) :
    ofTokens (ts ++ [a]) = ofTokens ts ++ [.parameter a a.stop] := by
  fun_induction ofTokens ts with
  | case1 => rw [List.nil_append, ofTokens_parameter ha, ofTokens_nil, List.nil_append]
  | case2 t rest hk ih => rw [List.cons_append, ofTokens_skip (by simpa using hk), ih]
  | case3 t rest _ hk ih =>
    rw [List.cons_append, ofTokens_parameter (by simpa using hk), ih, List.cons_append]
  | case4 t rest hk hp ih =>
    have ht := continuesList_of_not hk hp
    have hcomma : a.isOperator [','] = false := by simp [Token.isOperator, ha]
    have hend : continuesList a = false := by simp [continuesList, ha]
    rw [List.cons_append, ((joins_listTail t rest).append hcomma (.inl hend)).ofTokens_eq ht, ih,
      List.cons_append]

theorem exists_start_of_mem {ts : List Token} {e : Element} (h : e ∈ ofTokens ts) :
    ∃ t ∈ ts, t.start = e.start := by
  fun_induction ofTokens ts with
  | case1 => cases h
  | case2 t rest hk ih =>
    obtain ⟨u, hu, hstart⟩ := ih h
    exact ⟨u, List.mem_cons_of_mem _ hu, hstart⟩
  | case3 t rest _ hk ih =>
    rcases List.mem_cons.mp h with rfl | h
    · exact ⟨t, List.mem_cons_self .., rfl⟩
    · obtain ⟨u, hu, hstart⟩ := ih h
      exact ⟨u, List.mem_cons_of_mem _ hu, hstart⟩
  | case4 t rest hk hp ih =>
    rcases List.mem_cons.mp h with rfl | h
    · exact ⟨t, List.mem_cons_self .., rfl⟩
    · obtain ⟨u, hu, hstart⟩ := ih h
      exact ⟨u, List.mem_cons_of_mem _ ((joins_listTail t rest).left_sublist.subset hu), hstart⟩

theorem Joins.stop_le (h : Joins t rest others stop left) {n : Nat}
    (hlaid : Token.Laid n (t :: rest)) : ∀ u ∈ left, (ofParts t others stop).stop ≤ u.start := by
  intro u hu
  cases stop with
  | none =>
    obtain ⟨p, hp, hsub⟩ := h.exists_last
    rw [List.getLast?_cons] at hp
    rw [ofParts_stop, Option.getD_none, Option.some.inj hp]
    exact (hlaid.sublist hsub).stop_le hu
  | some n =>
    obtain ⟨p, comma, -, rfl, hsub⟩ := h.exists_comma
    exact (hlaid.sublist hsub).tail.stop_le hu

theorem ofTokens_ordered {n : Nat} {ts : List Token} (h : Token.Laid n ts) :
    (ofTokens ts).Pairwise fun e f => e.stop ≤ f.start := by
  fun_induction ofTokens ts with
  | case1 => exact .nil
  | case2 t rest hk ih => exact ih h.tail
  | case3 t rest _ hk ih =>
    refine .cons (fun e he => ?_) (ih h.tail)
    obtain ⟨u, hu, hstart⟩ := exists_start_of_mem he
    exact hstart ▸ h.stop_le hu
  | case4 t rest hk hp ih =>
    have hjoins := joins_listTail t rest
    refine .cons (fun e he => ?_) (ih (h.tail.sublist hjoins.left_sublist))
    obtain ⟨u, hu, hstart⟩ := exists_start_of_mem he
    exact hstart ▸ hjoins.stop_le h u hu

theorem ofTokens_start_lt {n : Nat} {ts : List Token} (h : Token.Laid n ts) :
    ∀ e ∈ ofTokens ts, e.start < e.stop := by
  fun_induction ofTokens ts with
  | case1 => simp
  | case2 t rest hk ih => exact ih h.tail
  | case3 t rest _ hk ih =>
    exact List.forall_mem_cons.mpr ⟨(h.within t (by simp)).start_lt, ih h.tail⟩
  | case4 t rest hk hp ih =>
    have hlt := (h.within t (by simp)).start_lt
    refine List.forall_mem_cons.mpr ⟨Nat.lt_of_lt_of_le hlt (listTail_within h).first_le, ?_⟩
    exact ih (h.tail.sublist (joins_listTail t rest).left_sublist)

theorem Joins.others_mem (h : Joins t rest others stop left) :
    ∀ u ∈ others, u ∈ rest ∧ continuesList u = true := by
  induction h with
  | done => simp
  | trailing => simp
  | @next t comma u rest others stop left _ hu _ ih =>
    refine List.forall_mem_cons.mpr ⟨⟨by simp, hu⟩, fun v hv => ⟨?_, (ih v hv).2⟩⟩
    exact List.mem_cons_of_mem _ (List.mem_cons_of_mem _ (ih v hv).1)

theorem parts_of_mem {ts : List Token} {e : Element} (h : e ∈ ofTokens ts) :
    e.parts ≠ [] ∧ ∀ u ∈ e.parts, u ∈ ts ∧
      (if e.isParameter then u.kind = .parameter else continuesList u = true) := by
  fun_induction ofTokens ts with
  | case1 => cases h
  | case2 t rest hk ih =>
    obtain ⟨hne, hparts⟩ := ih h
    exact ⟨hne, fun u hu => ⟨List.mem_cons_of_mem _ (hparts u hu).1, (hparts u hu).2⟩⟩
  | case3 t rest _ hk ih =>
    rcases List.mem_cons.mp h with rfl | h
    · refine ⟨by simp [parts], fun u hu => ?_⟩
      obtain rfl := List.mem_singleton.mp hu
      exact ⟨by simp, by simpa [isParameter] using hk⟩
    · obtain ⟨hne, hparts⟩ := ih h
      exact ⟨hne, fun u hu => ⟨List.mem_cons_of_mem _ (hparts u hu).1, (hparts u hu).2⟩⟩
  | case4 t rest hk hp ih =>
    have hjoins := joins_listTail t rest
    rcases List.mem_cons.mp h with rfl | h
    · refine ⟨by simp [parts, ofParts], fun u hu => ?_⟩
      rcases List.mem_cons.mp hu with rfl | hu
      · exact ⟨by simp, continuesList_of_not hk hp⟩
      · obtain ⟨hin, hu⟩ := hjoins.others_mem u hu
        exact ⟨List.mem_cons_of_mem _ hin, hu⟩
    · obtain ⟨hne, hparts⟩ := ih h
      exact ⟨hne, fun u hu =>
        ⟨List.mem_cons_of_mem _ (hjoins.left_sublist.subset (hparts u hu).1), (hparts u hu).2⟩⟩

theorem closed_of_isParameter {ts : List Token} {e : Element} (h : e ∈ ofTokens ts)
    (hp : e.isParameter = true) : e.Closed := by
  fun_induction ofTokens ts with
  | case1 => cases h
  | case2 t rest hk ih => exact ih h
  | case3 t rest _ hk ih =>
    rcases List.mem_cons.mp h with rfl | h
    · rintro p ⟨⟩
      rfl
    · exact ih h
  | case4 t rest hk _ ih =>
    rcases List.mem_cons.mp h with rfl | h
    · cases hp
    · exact ih h

def EndsIn (e : Element) (a : Token) : Prop := e.isParameter = false ∧ e.parts.getLast? = some a

section Append

variable {ts : List Token} {before : List Element} {e : Element} {n : Nat}

theorem replace_value (ht : continuesList t = true) (ha : continuesList a = true)
    (h : ofTokens (ts ++ [t]) = before ++ [e]) :
    ∃ e', ofTokens (ts ++ [a]) = before ++ [e'] ∧ e'.EndsIn a := by
  rcases apart_or_waiting ts with happart | ⟨-, -, happend⟩
  · rw [happart.append t ht] at h
    obtain ⟨rfl, -⟩ := List.append_inj' h rfl
    exact ⟨_, happart.append a ha, rfl, rfl⟩
  · rw [happend t ht] at h
    obtain ⟨rfl, -⟩ := List.append_inj' h rfl
    exact ⟨_, happend a ha, rfl, by simp [parts]⟩

theorem append_open (hlaid : Token.Laid n ts) (ha : continuesList a = true)
    (h : ofTokens ts = before ++ [e]) (hopen : ¬ e.Closed) (hstop : e.stop = n) :
    ∃ e', ofTokens (ts ++ [a]) = before ++ [e'] ∧ e'.EndsIn a := by
  rcases apart_or_waiting ts with happart | ⟨heq, -, happend⟩
  · obtain ⟨comma, u, hsub, hcomma⟩ := (happart.closed e (by simp [h])).resolve_left hopen
    have hle := (hlaid.sublist hsub).stop_le (u := u) (by simp)
    have hu := (hlaid.sublist hsub).within u (by simp)
    have := hu.start_lt
    have := hu.stop_le
    omega
  · rw [heq] at h
    obtain ⟨rfl, -⟩ := List.append_inj' h rfl
    exact ⟨_, happend a ha, rfl, by simp [parts]⟩

theorem append_closed (hlaid : Token.Laid n ts) (ha : continuesList a = true)
    (h : ∀ e ∈ (ofTokens ts).getLast?, e.Closed) :
    ofTokens (ts ++ [a]) = ofTokens ts ++ [.value [a] a.start a.stop] := by
  rcases apart_or_waiting ts with happart | @⟨front, others, p, comma, start, heq, hsub, -⟩
  · exact happart.append a ha
  · have hclosed := h _ (by rw [heq, List.getLast?_concat]; rfl) p (by simp [parts])
    have hle := (hlaid.sublist hsub).stop_le (u := comma) (by simp)
    have := ((hlaid.sublist hsub).within comma (by simp)).start_lt
    simp only [stop] at hclosed
    omega

end Append

theorem indexAt?_append_singleton {front : List Element} {e : Element} {cursor : Nat}
    (h : e.contains cursor = true) :
    indexAt? (front ++ [e]) cursor = some front.length := by
  rw [indexAt?, if_neg (by omega), List.zipIdx_append, List.filter_append]
  simp [h]

end CommandShell.Element
