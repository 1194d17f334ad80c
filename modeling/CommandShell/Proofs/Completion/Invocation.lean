import CommandShell.Proofs.Binding.Cursor
import CommandShell.Proofs.Completion.Span
import CommandShell.Proofs.Session.Invocation

/-!
A completion sees what would run: the statement under the cursor is the one that the line is run
by, and the binding that candidates are filtered by is the one that its command is called with.
-/

set_option autoImplicit false

namespace CommandShell

namespace Statement

/-- Where the statements of a line begin: at its start and right after each separator. -/
def starts (tokens : List Token) : List Nat := 0 :: (tokens.filter isSeparator).map Token.stop

def OnlySeparates (tokens : List Token) : Prop :=
  ∀ t ∈ tokens, t.kind = .operator → t.value = [','] ∨ t.value ∈ separators

theorem OnlySeparates.isBoundary_eq {tokens : List Token} (h : OnlySeparates tokens) :
    ∀ t ∈ tokens, isBoundary t = isSeparator t := by
  intro t ht
  cases hk : t.kind == .operator with
  | false => simp only [isBoundary, isSeparator, hk, Bool.false_and]
  | true =>
    simp only [isBoundary, isSeparator, hk, Bool.true_and]
    rcases h t ht (by simpa using hk) with hv | hv
    · rw [hv]
      decide
    · rw [List.contains_iff_mem.mpr hv, bne_iff_ne]
      rintro hcomma
      rw [hcomma] at hv
      revert hv
      decide

theorem segments_map_snd {ts : List Token} (h : ∀ t ∈ ts, isBoundary t = isSeparator t)
    (start : Nat) (before : Option Text) :
    (segments start ts).map (·.2) = (split before ts).map (·.2) := by
  induction ts generalizing start before with
  | nil => rfl
  | cons t ts ih =>
    have hrest : ∀ u ∈ ts, isBoundary u = isSeparator u := fun u hu => h u (by simp [hu])
    rw [segments, split, h t (by simp)]
    split
    · rfl
    · split
      · rw [List.map_cons, List.map_cons, ih hrest]
      · have hsame := ih hrest start before
        revert hsame
        cases segments start ts <;> cases split before ts <;> simp +contextual

theorem segments_map_fst {ts : List Token} (h : ∀ t ∈ ts, t.kind ≠ .endOfInput) (start : Nat) :
    (segments start ts).map (·.1) = start :: (ts.filter isBoundary).map Token.stop := by
  induction ts generalizing start with
  | nil => rfl
  | cons t ts ih =>
    have hrest : ∀ u ∈ ts, u.kind ≠ .endOfInput := fun u hu => h u (by simp [hu])
    rw [segments, if_neg (by simpa using h t (by simp))]
    split
    · rename_i hb
      rw [List.map_cons, ih hrest, List.filter_cons_of_pos hb, List.map_cons]
    · rename_i hb
      have hsame := ih hrest start
      rw [List.filter_cons_of_neg hb]
      revert hsame
      cases segments start ts <;> simp +contextual

theorem isBoundary_of_mem_segments {start : Nat} {ts : List Token} {segment : Nat × List Token}
    (h : segment ∈ segments start ts) : ∀ t ∈ segment.2, isBoundary t = false := by
  fun_induction segments start ts generalizing segment with
  | case1 => simp_all
  | case2 => simp_all
  | case3 start t ts _ _ ih =>
    rcases List.mem_cons.mp h with rfl | h
    · simp
    · exact ih h
  | case4 start t ts _ hb hs ih =>
    rw [List.mem_singleton.mp h]
    simpa using hb
  | case5 start t ts _ hb first tokens later hs ih =>
    rw [hs] at ih
    rcases List.mem_cons.mp h with rfl | h
    · refine List.forall_mem_cons.mpr ⟨by simpa using hb, ?_⟩
      exact @ih (first, tokens) (List.mem_cons_self ..)
    · exact ih (List.mem_cons_of_mem _ h)

theorem exists_of_getLast?_filter {α : Type} {xs : List α} {p : α → Bool} {a : α}
    (h : (xs.filter p).getLast? = some a) :
    ∃ before after, xs = before ++ a :: after ∧ p a = true ∧ ∀ b ∈ after, p b = false := by
  obtain ⟨front, hfront⟩ := List.getLast?_eq_some_iff.mp h
  obtain ⟨xs₁, xs₂, rfl, -, hlast⟩ := List.filter_eq_append_iff.mp hfront
  obtain ⟨ys₁, ys₂, rfl, -, ha, hnone⟩ := List.filter_eq_cons_iff.mp hlast
  refine ⟨xs₁ ++ ys₁, ys₂, by simp, ha, fun b hb => ?_⟩
  simpa using List.filter_eq_nil_iff.mp hnone b hb

theorem starts_ordered (line : Text) : (starts (Token.scan line)).Pairwise (· ≤ ·) := by
  have hlaid := Token.laid_scanAll line
  have hseparators : (Token.scan line).filter isSeparator =
      ((Lexeme.scanAll 0 line).map Token.ofLexeme).filter isSeparator := by
    rw [Token.scan, List.filter_append]
    exact List.append_nil _
  rw [starts, hseparators]
  refine List.pairwise_cons.mpr ⟨fun _ _ => Nat.zero_le _, List.pairwise_map.mpr ?_⟩
  refine List.Pairwise.imp_of_mem ?_ (hlaid.ordered.sublist List.filter_sublist)
  intro t u _ hu htu
  have := (hlaid.within u (List.mem_filter.mp hu).1).start_lt
  omega

/-- The statement under the cursor is one of those that the line is run by: the last of them that
begins at or before the cursor. -/
theorem split_at? {line : Text} (h : OnlySeparates (Token.scan line)) (cursor : Nat) :
    ∃ (k : Nat) (operator : Option Text), (split none (Token.scan line))[k]? =
        some (operator, at? (Token.scan line) cursor) ∧
      ∀ (j start : Nat), (starts (Token.scan line))[j]? = some start →
        (start ≤ cursor ↔ j ≤ k) := by
  have hsplit := segments_map_snd h.isBoundary_eq 0 none
  have hstarts : (segments 0 (Token.scan line)).map (·.1) = starts (Token.scan line) := by
    rw [Token.scan, segments_finish, segments_map_fst (tiling_scanAll line).kind_ne, starts,
      List.filter_append]
    have hfinish : [Token.finish line.length].filter isSeparator = [] := rfl
    have hsame := List.filter_congr fun t ht =>
      h.isBoundary_eq t (List.mem_append_left [Token.finish line.length] ht)
    rw [hfinish, List.append_nil, hsame]
  have hordered := starts_ordered line
  have hfirst : (starts (Token.scan line))[0]? = some 0 := rfl
  rw [← hstarts] at hordered hfirst ⊢
  cases hlast : ((segments 0 (Token.scan line)).filter
      fun segment => (segment.1 : Int) ≤ cursor).getLast? with
  | none =>
    -- the first statement begins at the start of the line
    exfalso
    rw [List.getElem?_map] at hfirst
    obtain ⟨segment, hsegment, hzero⟩ := Option.map_eq_some_iff.mp hfirst
    have hnone := List.filter_eq_nil_iff.mp (List.getLast?_eq_none_iff.mp hlast) segment
      (List.mem_of_getElem? hsegment)
    simp [hzero] at hnone
  | some segment =>
    have hat : at? (Token.scan line) cursor = segment.2 := by simp only [at?, hlast]
    obtain ⟨before, after, hall, hle, hafter⟩ := exists_of_getLast?_filter hlast
    have hk : (segments 0 (Token.scan line))[before.length]? = some segment := by
      rw [hall, List.getElem?_append_right (Nat.le_refl _), Nat.sub_self]
      rfl
    have hsegment : ((split none (Token.scan line)).map (·.2))[before.length]? =
        some segment.2 := by rw [← hsplit, List.getElem?_map, hk]; rfl
    rw [List.getElem?_map] at hsegment
    obtain ⟨⟨operator, tokens⟩, hpair, htokens⟩ := Option.map_eq_some_iff.mp hsegment
    refine ⟨before.length, operator, by rw [hpair, hat, ← htokens], fun j start hj => ?_⟩
    rw [List.getElem?_map] at hj
    obtain ⟨other, hother, rfl⟩ := Option.map_eq_some_iff.mp hj
    constructor
    · intro hstart
      refine Nat.le_of_not_lt fun hlt => ?_
      rw [hall, List.getElem?_append_right (Nat.le_of_lt hlt),
        show j - before.length = j - before.length - 1 + 1 by omega,
        List.getElem?_cons_succ] at hother
      have := hafter other (List.mem_of_getElem? hother)
      simp only [decide_eq_false_iff_not] at this
      omega
    · intro hjk
      have hstart : other.1 ≤ segment.1 := by
        rcases Nat.lt_or_eq_of_le hjk with hlt | rfl
        · have hpair := List.pairwise_iff_getElem.mp hordered
          have hj' := List.getElem?_eq_some_iff.mp hother
          have hk' := List.getElem?_eq_some_iff.mp hk
          have := hpair j before.length (by simpa using hj'.1) (by simpa using hk'.1) hlt
          simpa [hj'.2, hk'.2] using this
        · obtain rfl := Option.some.inj (hother.symm.trans hk)
          exact Nat.le_refl _
      have : (segment.1 : Int) ≤ cursor := by simpa using hle
      omega

theorem isBoundary_of_mem_at? {tokens : List Token} {cursor : Int} :
    ∀ t ∈ at? tokens cursor, isBoundary t = false := by
  unfold at?
  dsimp only
  split
  · rename_i segment hs
    exact isBoundary_of_mem_segments (List.mem_filter.mp (List.mem_of_getLast? hs)).1
  · cases hs : (segments 0 tokens).head? with
    | none => simp
    | some segment => exact isBoundary_of_mem_segments (List.mem_of_head? hs)

def isAssignment : List Token → Bool
  | first :: second :: _ => first.kind = .reference && second.value = ['=']
  | _ => false

end Statement

namespace Completion

variable {σ : Type}

/-- The elements that a completion looks at. -/
def elementsAt (line : Text) (cursor : Nat) : List Element :=
  (withCursorElement (Element.ofTokens (Statement.at? (Token.scan line) cursor)) cursor).map
    (dashAsParameter cursor)

/-- The binding that the names and values of arguments are offered by. -/
def bindingAt (shell : Shell σ) (line : Text) (cursor : Nat) : Binding :=
  Binding.bindInvocation (elementsAt line cursor) cursor (some shell.registry.describe)
    (some shell.types)

theorem dashAsParameter_eq {cursor : Nat} {e : Element}
    (h : e.isParameter = false → ∀ c, e.raw = [c] → Sign.isDash c = true → e.stop ≠ cursor) :
    dashAsParameter cursor e = e := by
  fun_cases dashAsParameter cursor e with
  | case1 t start stop c ht hc =>
    simp only [Bool.and_eq_true, beq_iff_eq] at hc
    refine absurd hc.2 (h rfl c ?_ hc.1)
    simp [Element.raw, Element.parts, ht, Text.join_cons]
  | case2 => rfl
  | case3 => rfl
  | case4 => rfl

/-- On an element, and not right behind a lone dash, nothing is put in and nothing is changed. -/
theorem elementsAt_eq {line : Text} {cursor : Nat}
    (hin : ∃ e ∈ Element.ofTokens (Statement.at? (Token.scan line) cursor),
      e.contains cursor = true)
    (hdash : ∀ e ∈ Element.ofTokens (Statement.at? (Token.scan line) cursor),
      e.isParameter = false → ∀ c, e.raw = [c] → Sign.isDash c = true → e.stop ≠ cursor) :
    elementsAt line cursor = Element.ofTokens (Statement.at? (Token.scan line) cursor) := by
  rw [elementsAt, withCursorElement, if_pos (List.any_eq_true.mpr hin)]
  exact (List.map_congr_left fun e he => dashAsParameter_eq (hdash e he)).trans (List.map_id _)

end Completion

namespace Session

variable {σ : Type} {shell : Shell σ} {c : Command σ}

theorem unsupported_eq_nil {tokens : List Token}
    (h : ∀ t ∈ tokens, Statement.isBoundary t = false) : unsupported tokens = [] := by
  have hnone : tokens.filter Statement.isBoundary = [] :=
    List.filter_eq_nil_iff.mpr fun t ht => by simp [h t ht]
  rw [unsupported, hnone]
  simp [Parameter.sortedNames]

theorem runStatement_command {tokens : List Token} {command : Element} {rest : List Element}
    (hb : ∀ t ∈ tokens, Statement.isBoundary t = false)
    (ha : Statement.isAssignment tokens = false)
    (he : Element.ofTokens tokens = command :: rest)
    (hv : Text.lower command.text ∉ Completion.builtIn)
    (hc : shell.registry.get? command.text = some c) (session : Session σ) :
    runStatement shell session tokens = session.invoke c
      (Binding.bind (Element.ofTokens tokens) (-1) c.parameters (some shell.types)) := by
  match tokens with
  | [] =>
    rw [Element.ofTokens_nil] at he
    cases he
  | [t] => simp only [runStatement, unsupported_eq_nil hb, he, dispatch_command hv hc]
  | first :: second :: more =>
    simp only [Statement.isAssignment] at ha
    simp only [runStatement, unsupported_eq_nil hb, he, dispatch_command hv hc, ha,
      Bool.false_eq_true, if_false]

end Session

namespace Completion

variable {σ : Type} {shell : Shell σ}

/-- Where the cursor is on an element, and not right behind a lone dash, a completion looks at the
statement that the line is run by, and at the binding that the command is called with. -/
theorem bindingAt_agrees {line : Text} {tokens : List Token}
    (hline : Token.scanStrict line = .ok tokens) (hoperators : Statement.OnlySeparates tokens)
    {cursor : Nat}
    (hin : ∃ e ∈ Element.ofTokens (Statement.at? (Token.scan line) cursor),
      e.contains cursor = true)
    (hdash : ∀ e ∈ Element.ofTokens (Statement.at? (Token.scan line) cursor),
      e.isParameter = false → ∀ c, e.raw = [c] → Sign.isDash c = true → e.stop ≠ cursor) :
    let statement := Statement.at? (Token.scan line) cursor
    (∃ (k : Nat) (operator : Option Text),
      (Statement.split none tokens)[k]? = some (operator, statement) ∧
      ∀ (j start : Nat), (Statement.starts tokens)[j]? = some start → (start ≤ cursor ↔ j ≤ k)) ∧
    ∀ (command : Element) (rest : List Element) (c : Command σ),
      Element.ofTokens statement = command :: rest →
      shell.registry.get? command.text = some c →
      let b := Binding.bind (Element.ofTokens statement) (-1) c.parameters (some shell.types)
      Binding.Agrees (bindingAt shell line cursor) b ∧
      (Statement.isAssignment statement = false → Text.lower command.text ∉ builtIn →
        ∀ session, Session.runStatement shell session statement = session.invoke c b) := by
  intro statement
  obtain rfl : tokens = Token.scan line := @Token.eq_scan_of_read true _ _ hline
  refine ⟨Statement.split_at? hoperators cursor, fun command rest c he hc => ⟨?_, ?_⟩⟩
  · have hdescribe : shell.registry.describe command.text = .ok c.parameters := by
      simp only [Registry.describe, hc]
    have hagrees := Binding.bind_agrees (command :: rest) cursor (-1) c.parameters
      (some shell.types)
    rw [bindingAt, elementsAt_eq hin hdash, he]
    simp only [Binding.bindInvocation, List.head?_cons, hdescribe, List.nil_append]
    exact hagrees
  · intro ha hv session
    exact Session.runStatement_command Statement.isBoundary_of_mem_at? ha he hv hc session

def placing : Command (Unit × List Call) :=
  { Session.go [] with
    name := "Cmd".toList
    parameters := [⟨['P'], [], some 0, false, .text, [], []⟩,
      ⟨"Foo".toList, [], none, true, .boolean, [], []⟩] }

def placingShell : Shell (Unit × List Call) :=
  ⟨(Registry.empty.register placing).1, TypeRegistry.empty⟩

theorem bindingAt_agrees_second :
    Token.scanStrict "Go x; Cmd -Foo a,b".toList = .ok (Token.scan "Go x; Cmd -Foo a,b".toList) ∧
      ∃ b : Binding, Binding.Agrees (bindingAt placingShell "Go x; Cmd -Foo a,b".toList 17) b ∧
        b.named.map (·.1) = ["Foo".toList, ['P']] ∧ b.errors = [] ∧
        ∀ session, Session.runStatement placingShell session
          (Statement.at? (Token.scan "Go x; Cmd -Foo a,b".toList) (17 : Nat)) =
            session.invoke placing b := by
  have hline : Token.scanStrict "Go x; Cmd -Foo a,b".toList = .ok _ :=
    Token.scanStrict_eq_ok (by decide +kernel)
  have helements : Element.ofTokens
      (Statement.at? (Token.scan "Go x; Cmd -Foo a,b".toList) (17 : Nat)) =
        [.value [⟨.bare, "Cmd".toList, "Cmd".toList, 6, none, true⟩] 6 9,
          .parameter ⟨.parameter, "-Foo".toList, "Foo".toList, 10, none, true⟩ 14,
          .value [⟨.bare, ['a'], ['a'], 15, none, true⟩,
            ⟨.bare, ['b'], ['b'], 17, none, true⟩] 15 18] := by decide +kernel
  have hoperators : Statement.OnlySeparates (Token.scan "Go x; Cmd -Foo a,b".toList) := by
    unfold Statement.OnlySeparates
    decide +kernel
  obtain ⟨-, hcommand⟩ := @bindingAt_agrees _ placingShell _ _ hline hoperators 17
    (by decide +kernel) (by
      rw [helements]
      simp [Element.isParameter, Element.stop])
  obtain ⟨hagrees, hrun⟩ := hcommand _ _ placing helements (Registry.get?_register rfl)
  refine ⟨hline, _, hagrees, by decide +kernel, by decide +kernel, ?_⟩
  exact hrun (by decide +kernel) (by decide +kernel)

/-- With a comma behind it the dash is no longer right before the cursor, and still the binding
takes it for the beginning of a name. The line that runs has it as a value. -/
theorem bindingAt_dash_comma :
    Token.scanStrict "Cmd -,-Foo".toList = .ok (Token.scan "Cmd -,-Foo".toList) ∧
      Statement.OnlySeparates (Token.scan "Cmd -,-Foo".toList) ∧
      (∃ e ∈ Element.ofTokens (Statement.at? (Token.scan "Cmd -,-Foo".toList) (6 : Nat)),
        e.contains (6 : Nat) = true ∧ e.raw = "-Foo".toList) ∧
      placingShell.registry.get? placing.name = some placing ∧
      ¬ Binding.Agrees (bindingAt placingShell "Cmd -,-Foo".toList 6)
        (Binding.bind
          (Element.ofTokens (Statement.at? (Token.scan "Cmd -,-Foo".toList) (6 : Nat))) (-1)
          placing.parameters (some placingShell.types)) := by
  refine ⟨Token.scanStrict_eq_ok (by decide +kernel), ?_, ?_, Registry.get?_register rfl, ?_⟩
  · unfold Statement.OnlySeparates
    decide +kernel
  · decide +kernel
  · intro h
    have havailable := congrArg (List.map (·.name)) h.available
    revert havailable
    decide +kernel

end Completion

end CommandShell
