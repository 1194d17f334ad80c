import CommandShell.Proofs.Binding.Escape
import CommandShell.Proofs.Session.Answers

/-!
How a line ends. It comes to an output, or to the end of the session, and to that just when a
statement is reached that leaves.
-/

set_option autoImplicit false

namespace CommandShell.Session

open Statement Binding

variable {σ : Type} {shell : Shell σ} {session final : Session σ} {tokens : List Token}
  {outputs : List Text} {ok : Bool} {xs : List (Option Text × List Token)}

/-- The statements that are reached, each with the session that it finds. -/
def reachedFrom (shell : Shell σ) (ok : Bool) (session : Session σ) :
    List (Option Text × List Token) → List (Session σ × List Token)
  | [] => []
  | s :: rest =>
    match lacking? s rest with
    | some _ => []
    | none =>
      if passesOver ok s then reachedFrom shell ok session rest
      else (session, s.2) ::
        match runStatement shell session s.2 with
        | .exited _ | .raised .. => []
        | .done _ ok session => reachedFrom shell ok session rest

def reached (shell : Shell σ) (session : Session σ) (line : Text) :
    List (Session σ × List Token) :=
  match Token.scanStrict line with
  | .error _ => []
  | .ok tokens => reachedFrom shell true session (Statement.split none tokens)

/-- The elements of a statement that runs a verb or a command. -/
structure Invokes (tokens : List Token) (elements : List Element) : Prop where
  assigns : assigns tokens = false
  supported : unsupported tokens = []
  elements : Element.ofTokens tokens = elements

/-- A statement that names a command, with what its elements bind to. -/
structure Names (shell : Shell σ) (tokens : List Token) (c : Command σ) (b : Binding) : Prop where
  named : ∃ command rest, Invokes tokens (command :: rest) ∧ Verb.of? command.text = none ∧
    shell.registry.get? command.text = some c ∧
    bind (command :: rest) (-1) c.parameters (some shell.types) = b

/-- The command is called on the binding, with what that comes to and the state that it leaves. -/
def Runs (session : Session σ) (c : Command σ) (b : Binding) (outcome : Outcome) (state : σ) :
    Prop :=
  ∃ keywords, b.keywords c session.vars = .ok keywords ∧
    (b.attached = [] ∨ c.action.takesAny = true) ∧ keywords.has "self".toList = false ∧
    c.action.run ⟨keywords, b.sources c session.vars session.assigned⟩ session.state =
      (outcome, state)

/-- A statement that ends the session, and the session then: the verb for it, or a command that is
called and whose action says so. -/
inductive Leaves (shell : Shell σ) (session : Session σ) (tokens : List Token) :
    Session σ → Prop where
  | verb {command : Element} {rest : List Element} :
      Invokes tokens (command :: rest) →
      Text.lower command.text = "exit".toList ∨ Text.lower command.text = "quit".toList →
      Leaves shell session tokens session
  | action {c : Command σ} {b : Binding} {state : σ} :
      Names shell tokens c b → Runs session c b .exit state →
      Leaves shell session tokens { session with state := state }

/-- What a call comes to cannot be told: the text of the failure or of the value raises. -/
inductive Untold : Outcome → Raised → Prop where
  | failure {thrown raised : Raised} : thrown.told = .error raised → Untold (.failed thrown) raised
  | value {d : Datum} {raised : Raised} : d.print = .error raised → Untold (.value d) raised

/-- A statement that raises, and the session then: its command is not called, since the binding
raises or the failure of a conversion cannot be told, or what the call comes to cannot. -/
inductive Raises (shell : Shell σ) (session : Session σ) (tokens : List Token) :
    Raised → Session σ → Prop where
  | binding {c : Command σ} {b : Binding} {raised : Raised} :
      Names shell tokens c b → b.outcome = .error raised →
      Raises shell session tokens raised session
  | keywords {c : Command σ} {b : Binding} {fault : InvocationFault} {raised : Raised} :
      Names shell tokens c b → b.outcome = .ok b → b.keywords c session.vars = .error fault →
      fault.raised.told = .error raised → Raises shell session tokens raised session
  | action {c : Command σ} {b : Binding} {outcome : Outcome} {state : σ} {raised : Raised} :
      Names shell tokens c b → Runs session c b outcome state → Untold outcome raised →
      Raises shell session tokens raised { session with state := state }

theorem Verb.of?_eq_leave {name : Text} : Verb.of? name = some .leave ↔
    Text.lower name = "exit".toList ∨ Text.lower name = "quit".toList := by
  rw [Verb.of?]
  split
  · rename_i h
    simpa using h
  · rename_i h
    split
    · simpa using h
    · split <;> simpa using h

section

variable {c : Command σ} {b : Binding} {raised thrown : Raised} {outcome : Outcome}

theorem caught_ne_exited : session.caught c thrown ≠ .exited final := by
  rcases caught_cases session c thrown with ⟨fault, h⟩ | ⟨inner, -, h⟩ <;> rw [h] <;> exact nofun

theorem caught_eq_raised : session.caught c thrown = .raised raised final ↔
    thrown.told = .error raised ∧ session = final := by
  unfold caught
  split
  · rename_i fault htold
    refine iff_of_false ?_ fun h => ?_
    · split <;> exact nofun
    · cases htold.symm.trans h.1
  · rename_i inner htold
    rw [htold, Ran.raised.injEq, Except.error.injEq]

theorem report_eq_exited :
    session.report c outcome = .exited final ↔ outcome = .exit ∧ session = final := by
  fun_cases report session c outcome with
  | case1 => simp
  | case2 thrown =>
    refine iff_of_false caught_ne_exited ?_
    rintro ⟨h, -⟩
    cases h
  | _ =>
    constructor
    · intro h
      cases h
    · rintro ⟨h, -⟩
      cases h

theorem report_eq_raised :
    session.report c outcome = .raised raised final ↔ Untold outcome raised ∧ session = final := by
  fun_cases report session c outcome with
  | case2 thrown =>
    rw [caught_eq_raised]
    refine and_congr_left fun _ => ⟨.failure, fun h => ?_⟩
    cases h with
    | failure h => exact h
  | case7 d _ thrown hprint =>
    rw [Ran.raised.injEq]
    refine and_congr_left fun _ => ⟨fun h => .value (h ▸ hprint), fun h => ?_⟩
    cases h with
    | value h => exact Except.error.inj (hprint.symm.trans h)
  | case6 d _ output hprint =>
    constructor
    · intro h
      cases h
    · rintro ⟨h, -⟩
      cases h with
      | value h => cases hprint.symm.trans h
  | case5 =>
    constructor
    · intro h
      cases h
    · rintro ⟨h, -⟩
      cases h with
      | value h => cases h
  | case1 | case3 | case4 =>
    constructor
    · intro h
      cases h
    · rintro ⟨h, -⟩
      cases h

theorem Runs.invoke_eq {state : σ} (h : Runs session c b outcome state) :
    session.invoke c b = { session with state := state }.report c outcome := by
  obtain ⟨keywords, hk, hattached, hself, hrun⟩ := h
  rw [invoke_called hk hattached hself, hrun]

theorem runs_or_rejected (session : Session σ) (c : Command σ) (b : Binding) :
    (∃ outcome state, Runs session c b outcome state) ∨
      (∀ outcome state, ¬ Runs session c b outcome state) ∧
        ((∃ raised, b.outcome = .error raised ∧ session.invoke c b = .raised raised session) ∨
          (∃ fault, b.outcome = .ok b ∧ b.keywords c session.vars = .error fault ∧
            session.invoke c b = session.caught c fault.raised) ∨
          ∃ fault : Fault, session.invoke c b = session.misused c fault) := by
  by_cases h : ∃ keywords, b.keywords c session.vars = .ok keywords ∧
      (b.attached = [] ∨ c.action.takesAny = true) ∧ keywords.has "self".toList = false
  · obtain ⟨keywords, hk, hattached, hself⟩ := h
    exact .inl ⟨_, _, keywords, hk, hattached, hself, rfl⟩
  · refine .inr ⟨?_, invoke_rejected h⟩
    rintro outcome state ⟨keywords, hk, hattached, hself, -⟩
    exact h ⟨keywords, hk, hattached, hself⟩

theorem invoke_eq_exited : session.invoke c b = .exited final ↔
    ∃ state, Runs session c b .exit state ∧ { session with state := state } = final := by
  constructor
  · intro h
    rcases runs_or_rejected session c b with
      ⟨outcome, state, hruns⟩ | ⟨-, ⟨_, -, hi⟩ | ⟨_, -, -, hi⟩ | ⟨_, hi⟩⟩
    · obtain ⟨rfl, hfinal⟩ := report_eq_exited.mp (hruns.invoke_eq.symm.trans h)
      exact ⟨state, hruns, hfinal⟩
    · cases hi.symm.trans h
    · exact absurd (hi.symm.trans h) caught_ne_exited
    · cases hi.symm.trans h
  · rintro ⟨state, hruns, hfinal⟩
    rw [hruns.invoke_eq]
    exact report_eq_exited.mpr ⟨rfl, hfinal⟩

theorem invoke_eq_raised : session.invoke c b = .raised raised final ↔
    (b.outcome = .error raised ∧ session = final) ∨
      (∃ fault, b.outcome = .ok b ∧ b.keywords c session.vars = .error fault ∧
        fault.raised.told = .error raised ∧ session = final) ∨
      ∃ outcome state, Runs session c b outcome state ∧ Untold outcome raised ∧
        { session with state := state } = final := by
  constructor
  · intro h
    rcases runs_or_rejected session c b with
      ⟨outcome, state, hruns⟩ | ⟨-, ⟨_, hb, hi⟩ | ⟨fault, hb, hk, hi⟩ | ⟨_, hi⟩⟩
    · obtain ⟨huntold, hfinal⟩ := report_eq_raised.mp (hruns.invoke_eq.symm.trans h)
      exact .inr (.inr ⟨outcome, state, hruns, huntold, hfinal⟩)
    · obtain ⟨rfl, hfinal⟩ := Ran.raised.inj (hi.symm.trans h)
      exact .inl ⟨hb, hfinal⟩
    · obtain ⟨htold, hfinal⟩ := caught_eq_raised.mp (hi.symm.trans h)
      exact .inr (.inl ⟨fault, hb, hk, htold, hfinal⟩)
    · cases hi.symm.trans h
  · rintro (⟨hb, rfl⟩ | ⟨fault, hb, hk, htold, rfl⟩ | ⟨outcome, state, hruns, huntold, hfinal⟩)
    · simp only [invoke, hb]
    · simp only [invoke, hb, hk]
      exact caught_eq_raised.mpr ⟨htold, rfl⟩
    · rw [hruns.invoke_eq]
      exact report_eq_raised.mpr ⟨huntold, hfinal⟩

end

theorem runStatement_of_invokes {command : Element} {rest : List Element}
    (h : Invokes tokens (command :: rest)) :
    runStatement shell session tokens = dispatch shell session command (command :: rest) := by
  have hne : tokens.isEmpty = false := by
    cases tokens with
    | nil => cases Element.ofTokens_nil.symm.trans h.elements
    | cons => rfl
  rw [runStatement_eq, h.assigns, hne, h.supported, h.elements]
  rfl

theorem Names.runStatement_eq {c : Command σ} {b : Binding} (h : Names shell tokens c b) :
    runStatement shell session tokens = session.invoke c b := by
  obtain ⟨command, rest, hinvokes, hverb, hc, rfl⟩ := h.named
  simp only [runStatement_of_invokes hinvokes, dispatch, hverb, hc]

theorem runStatement_cases (shell : Shell σ) (session : Session σ) (tokens : List Token) :
    (∃ c b, Names shell tokens c b) ∨
      (∃ command rest, Invokes tokens (command :: rest) ∧ Verb.of? command.text = some .leave ∧
        runStatement shell session tokens = .exited session) ∨
      ∃ output ok final, runStatement shell session tokens = .done output ok final := by
  by_cases hinvokes : ∃ command rest, Invokes tokens (command :: rest)
  · obtain ⟨command, rest, h⟩ := hinvokes
    have hrun := @runStatement_of_invokes σ shell session tokens command rest h
    cases hverb : Verb.of? command.text with
    | some verb =>
      simp only [dispatch, hverb] at hrun
      cases verb with
      | leave => exact .inr (.inl ⟨command, rest, h, hverb, hrun⟩)
      | clear => exact .inr (.inr ⟨_, _, _, hrun⟩)
      | help =>
        refine .inr (.inr ?_)
        dsimp only at hrun
        split at hrun <;> exact ⟨_, _, _, hrun⟩
    | none =>
      cases hc : shell.registry.get? command.text with
      | none =>
        simp only [dispatch, hverb, hc] at hrun
        exact .inr (.inr ⟨_, _, _, hrun⟩)
      | some c => exact .inl ⟨c, _, ⟨command, rest, h, hverb, hc, rfl⟩⟩
  · refine .inr (.inr ?_)
    rw [runStatement_eq]
    split
    · unfold assign
      split <;> exact ⟨_, _, _, rfl⟩
    · rename_i hassigns
      split
      · exact ⟨_, _, _, rfl⟩
      · split
        · rename_i hsupported
          split
          · exact ⟨_, _, _, rfl⟩
          · rename_i command rest helements
            exact absurd ⟨command, rest, Bool.eq_false_iff.mpr hassigns, hsupported, helements⟩
              hinvokes
        · exact ⟨_, _, _, rfl⟩

theorem runStatement_eq_exited :
    runStatement shell session tokens = .exited final ↔ Leaves shell session tokens final := by
  constructor
  · intro h
    rcases runStatement_cases shell session tokens with
      ⟨c, b, hnames⟩ | ⟨command, rest, hinvokes, hverb, hrun⟩ | ⟨_, _, _, hrun⟩
    · obtain ⟨state, hruns, rfl⟩ := invoke_eq_exited.mp (hnames.runStatement_eq.symm.trans h)
      exact .action hnames hruns
    · obtain rfl := Ran.exited.inj (hrun.symm.trans h)
      exact .verb hinvokes (Verb.of?_eq_leave.mp hverb)
    · cases hrun.symm.trans h
  · rintro (⟨hinvokes, hverb⟩ | ⟨hnames, hruns⟩)
    · rw [runStatement_of_invokes hinvokes, dispatch, Verb.of?_eq_leave.mpr hverb]
    · rw [hnames.runStatement_eq]
      exact invoke_eq_exited.mpr ⟨_, hruns, rfl⟩

theorem runStatement_eq_raised {raised : Raised} :
    runStatement shell session tokens = .raised raised final ↔
      Raises shell session tokens raised final := by
  constructor
  · intro h
    rcases runStatement_cases shell session tokens with
      ⟨c, b, hnames⟩ | ⟨_, _, _, _, hrun⟩ | ⟨_, _, _, hrun⟩
    · rcases invoke_eq_raised.mp (hnames.runStatement_eq.symm.trans h) with
        ⟨hb, rfl⟩ | ⟨fault, hb, hk, htold, rfl⟩ | ⟨outcome, state, hruns, huntold, rfl⟩
      · exact .binding hnames hb
      · exact .keywords hnames hb hk htold
      · exact .action hnames hruns huntold
    · cases hrun.symm.trans h
    · cases hrun.symm.trans h
  · rintro (⟨hnames, hb⟩ | ⟨hnames, hb, hk, htold⟩ | ⟨hnames, hruns, huntold⟩)
    all_goals rw [hnames.runStatement_eq]
    · exact invoke_eq_raised.mpr (.inl ⟨hb, rfl⟩)
    · exact invoke_eq_raised.mpr (.inr (.inl ⟨_, hb, hk, htold, rfl⟩))
    · exact invoke_eq_raised.mpr (.inr (.inr ⟨_, _, hruns, huntold, rfl⟩))

def Ran.stopped? : Ran σ → Option (LineResult σ)
  | .done .. => none
  | .exited session => some (.exited session)
  | .raised e session => some (.raised e session)

theorem runStatements_stopped {result : LineResult σ}
    (hresult : ∀ output session, result ≠ .printed output session) :
    runStatements shell outputs ok session xs = result ↔
      ∃ s ∈ reachedFrom shell ok session xs,
        (runStatement shell s.1 s.2).stopped? = some result := by
  have hprinted (output : Option Text) (session : Session σ) :
      LineResult.printed output session = result ↔ False :=
    iff_of_false (fun h => hresult output session h.symm) id
  induction xs generalizing outputs ok session with
  | nil => simp [runStatements, reachedFrom, hprinted]
  | cons s rest ih =>
    rw [runStatements_cons, reachedFrom]
    cases lacking? s rest with
    | some operator => simp [hprinted]
    | none =>
      dsimp only
      cases hp : passesOver ok s with
      | true =>
        rw [if_pos rfl, if_pos rfl]
        exact ih
      | false =>
        rw [if_neg (by simp), if_neg (by simp)]
        simp only [List.mem_cons, exists_eq_or_imp]
        cases hrun : runStatement shell session s.2 with
        | exited session => simp [Ran.stopped?]
        | raised e session => simp [Ran.stopped?]
        | done output ok session => simpa [Ran.stopped?] using ih

theorem runStatements_eq_exited :
    runStatements shell outputs ok session xs = .exited final ↔
      ∃ s ∈ reachedFrom shell ok session xs, Leaves shell s.1 s.2 final := by
  have hstopped (ran : Ran σ) : ran.stopped? = some (.exited final) ↔ ran = .exited final := by
    cases ran <;> simp [Ran.stopped?]
  have hresult : ∀ output session, LineResult.exited final ≠ .printed output session := nofun
  simp only [runStatements_stopped hresult, hstopped, runStatement_eq_exited]

theorem runStatements_eq_raised {raised : Raised} :
    runStatements shell outputs ok session xs = .raised raised final ↔
      ∃ s ∈ reachedFrom shell ok session xs, Raises shell s.1 s.2 raised final := by
  have hstopped (ran : Ran σ) :
      ran.stopped? = some (.raised raised final) ↔ ran = .raised raised final := by
    cases ran <;> simp [Ran.stopped?]
  have hresult : ∀ output session, LineResult.raised raised final ≠ .printed output session := nofun
  simp only [runStatements_stopped hresult, hstopped, runStatement_eq_raised]

/-- Every line comes to an output, to the end of the session, or to what a statement raises. It ends
the session just when a statement is reached that leaves, and it raises just when one is reached
that raises. -/
theorem runLine_ends (shell : Shell σ) (hr : shell.registry.Registered) (session : Session σ)
    (line : Text) :
    runLine? shell session line = some (runLine shell session line) ∧
      (∀ final, runLine shell session line = .exited final ↔
        ∃ s ∈ reached shell session line, Leaves shell s.1 s.2 final) ∧
      ∀ raised final, runLine shell session line = .raised raised final ↔
        ∃ s ∈ reached shell session line, Raises shell s.1 s.2 raised final := by
  rw [runLine?, runLine, reached]
  cases hline : Token.scanStrict line with
  | error fault => exact ⟨rfl, by simp, by simp⟩
  | ok tokens =>
    have htokens : tokens = Token.scan line := @Token.eq_scan_of_read true line tokens hline
    refine ⟨runStatements?_eq hr.closed (fun s hs t ht => ?_) [] true session, fun final =>
      runStatements_eq_exited, fun raised final => runStatements_eq_raised⟩
    exact Token.read?_isSome_of_mem (htokens ▸ mem_of_mem_split hs t ht)

def sizedShell : Shell (Unit × List Call) :=
  ⟨(Registry.empty.register (go "size".toList)).1, sized⟩

theorem runLine_ends_go :
    let session : Session (Unit × List Call) := start [] ((), [])
    let quits := "$n = 1e9999; Go -S x && nope || quit; Go".toList
    let raises := "Go; Go -Grid.Width abc; Go".toList
    sizedShell.registry.Registered ∧ (runLine? sizedShell session quits).isSome = true ∧
      (reached sizedShell session quits).length = 4 ∧
      (∃ s ∈ reached sizedShell session quits, ∃ final,
        Leaves sizedShell s.1 s.2 final ∧ final.state.2.length = 1) ∧
      (reached sizedShell session raises).length = 2 ∧
      ∃ s ∈ reached sizedShell session raises, ∃ final,
        Raises sizedShell s.1 s.2 invalidOperation final ∧ final.state.2.length = 1 := by
  intro session quits raises
  have hr : sizedShell.registry.Registered := .register _ .empty
  obtain ⟨hrun, hexit, -⟩ := runLine_ends sizedShell hr session quits
  obtain ⟨-, -, hraise⟩ := runLine_ends sizedShell hr session raises
  obtain ⟨final, hfinal, hcalls⟩ : ∃ final, runLine sizedShell session quits = .exited final ∧
      final.state.2.length = 1 := by
    have hcomputed : (match runLine sizedShell session quits with
        | .exited final => decide (final.state.2.length = 1)
        | _ => false) = true := by decide +kernel
    split at hcomputed
    · rename_i final hfinal
      exact ⟨final, hfinal, of_decide_eq_true hcomputed⟩
    · cases hcomputed
  obtain ⟨last, hlast, hbefore⟩ : ∃ last,
      runLine sizedShell session raises = .raised invalidOperation last ∧
        last.state.2.length = 1 := by
    have hcomputed : (match runLine sizedShell session raises with
        | .raised e last => decide (e = invalidOperation ∧ last.state.2.length = 1)
        | _ => false) = true := by decide +kernel
    split at hcomputed
    · rename_i e last hlast
      obtain ⟨rfl, hone⟩ := of_decide_eq_true hcomputed
      exact ⟨last, hlast, hone⟩
    · cases hcomputed
  obtain ⟨s, hs, hleaves⟩ := (hexit final).mp hfinal
  obtain ⟨t, ht, hraises⟩ := (hraise invalidOperation last).mp hlast
  exact ⟨hr, by rw [hrun, Option.isSome_some], by decide +kernel, ⟨s, hs, final, hleaves, hcalls⟩,
    by decide +kernel, t, ht, last, hraises, hbefore⟩

/-- A line whose only statement is no verb but a parameter ends the session, and one of which an
argument does not convert raises. -/
theorem runLine_stopped :
    let session : Session (Unit × List Call) := start [] ((), [])
    (Token.scan "-exit".toList).head?.map (·.kind) = some .parameter ∧
      (match runLine sizedShell session "-exit".toList with
        | .exited _ => true
        | _ => false) = true ∧
      (match runLine sizedShell session "Go -Grid.Width abc".toList with
        | .raised e _ => decide (e = invalidOperation)
        | _ => false) = true := by
  decide +kernel

end CommandShell.Session
