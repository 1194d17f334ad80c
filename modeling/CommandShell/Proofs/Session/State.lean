import CommandShell.Proofs.Session.Variables

/-!
What commands act on, over the lines of a session. A statement that calls a command does to it what
the command does; no other statement changes it.
-/

set_option autoImplicit false

namespace CommandShell

theorem Registry.mem_all_of_get? {σ : Type} {r : Registry σ} {name : Text} {c : Command σ}
    (h : r.get? name = some c) : c ∈ r.all := by
  unfold get? at h
  dsimp only at h
  split at h
  · rename_i hown
    obtain rfl := Option.some.inj h
    exact List.mem_map_of_mem (Entries.mem_of_get? hown)
  · obtain ⟨key, -, hkey⟩ := Option.bind_eq_some_iff.mp h
    exact List.mem_map_of_mem (Entries.mem_of_get? hkey)

namespace Session

open Statement Binding

variable {σ : Type} {shell : Shell σ} {session : Session σ} {tokens : List Token} {ok : Bool}
  {c : Command σ} {call : Call}

/-- A statement calls a command: it names the command, and what follows the name binds clean, has
values of the parameters' types and is accepted. -/
inductive Calls (shell : Shell σ) (session : Session σ) (tokens : List Token) :
    Command σ → Call → Prop where
  | mk {command : Element} {rest : List Element} {c : Command σ} {b : Binding}
      {keywords : Entries Text Datum} :
      Invokes tokens (command :: rest) → Verb.of? command.text = none →
      shell.registry.get? command.text = some c →
      bind (command :: rest) (-1) c.parameters (some shell.types) = b →
      b.keywords c session.vars = .ok keywords →
      b.attached = [] ∨ c.action.takesAny = true → keywords.has "self".toList = false →
      Calls shell session tokens c ⟨keywords, b.sources c session.vars session.assigned⟩

def call? (shell : Shell σ) (session : Session σ) (tokens : List Token) :
    Option (Command σ × Call) :=
  match Element.ofTokens tokens with
  | [] => none
  | command :: rest =>
    if assigns tokens || !(unsupported tokens).isEmpty || (Verb.of? command.text).isSome then none
    else match shell.registry.get? command.text with
      | none => none
      | some c =>
        let b := bind (command :: rest) (-1) c.parameters (some shell.types)
        match b.keywords c session.vars with
        | .error _ => none
        | .ok keywords =>
          if (b.attached.isEmpty || c.action.takesAny) && !keywords.has "self".toList then
            some (c, ⟨keywords, b.sources c session.vars session.assigned⟩)
          else none

theorem calls_of_call? (h : call? shell session tokens = some (c, call)) :
    Calls shell session tokens c call := by
  unfold call? at h
  split at h
  · cases h
  · rename_i command rest helements
    split at h
    · cases h
    · rename_i hinvokes
      simp only [Bool.not_eq_true, Bool.or_eq_false_iff, Bool.not_eq_false', List.isEmpty_iff,
        Option.isSome_eq_false_iff, Option.isNone_iff_eq_none] at hinvokes
      split at h
      · cases h
      · rename_i hc
        dsimp only at h
        split at h
        · cases h
        · rename_i hkeywords
          split at h
          · rename_i haccepted
            simp only [Bool.and_eq_true, Bool.or_eq_true, List.isEmpty_iff, Bool.not_eq_true']
              at haccepted
            obtain ⟨rfl, rfl⟩ := Prod.mk.inj (Option.some.inj h)
            exact .mk ⟨hinvokes.1.1, hinvokes.1.2, helements⟩ hinvokes.2 hc rfl hkeywords
              haccepted.1 haccepted.2
          · cases h

theorem joined_singleton (output : Text) : joined [output] = some output := by
  simp [joined, Text.join_cons]

theorem alone_report_result {message : Text} (hne : message ≠ []) :
    (session.report c (.result ok message)).alone = .printed (some message) session := by
  obtain ⟨first, rest, rfl⟩ := List.exists_cons_of_ne_nil hne
  exact congrArg (LineResult.printed · session) (joined_singleton _)

theorem alone_report_failed {fault : Fault} (h : fault.kind.isA .type = false) :
    (session.report c (.failed fault)).alone =
      .printed (some (LineFault.failed fault).message) session := by
  simp only [report, caught, Raised.told, h, Bool.false_eq_true, if_false]
  exact congrArg (LineResult.printed · session) (joined_singleton _)

theorem Calls.runStatement_eq (h : Calls shell session tokens c call) :
    let ran := c.action.run call session.state
    runStatement shell session tokens = report { session with state := ran.2 } c ran.1 := by
  obtain ⟨hinvokes, hverb, hc, rfl, hkeywords, haccepted, hself⟩ := h
  rw [runStatement_eq_invoke hinvokes hverb hc]
  exact invoke_called hkeywords haccepted hself

theorem Calls.mem_all (h : Calls shell session tokens c call) : c ∈ shell.registry.all := by
  obtain ⟨-, -, hc, -⟩ := h
  exact Registry.mem_all_of_get? hc

theorem Calls.ne_nil (h : Calls shell session tokens c call) : tokens ≠ [] := by
  rintro rfl
  obtain ⟨hinvokes, -⟩ := h
  cases Element.ofTokens_nil.symm.trans hinvokes.elements

theorem Calls.state_eq (h : Calls shell session tokens c call) :
    (runStatement shell session tokens).session.state = (c.action.run call session.state).2 := by
  rw [h.runStatement_eq, report_session]

theorem state_eq_of_not_calls (h : ¬ ∃ c call, Calls shell session tokens c call) :
    (runStatement shell session tokens).session.state = session.state := by
  by_cases hinvokes : ∃ command rest, Invokes tokens (command :: rest)
  · obtain ⟨command, rest, hinvokes⟩ := hinvokes
    rw [runStatement_of_invokes hinvokes]
    cases hverb : Verb.of? command.text with
    | some verb =>
      rw [perform_verb verb _ hverb]
      cases verb <;> rfl
    | none =>
      cases hc : shell.registry.get? command.text with
      | none =>
        simp only [dispatch, hverb, hc]
        rfl
      | some c =>
        simp only [dispatch, hverb, hc]
        generalize hb : bind (command :: rest) (-1) c.parameters (some shell.types) = b
        have hnot : ¬ ∃ keywords, b.keywords c session.vars = .ok keywords ∧
            (b.attached = [] ∨ c.action.takesAny = true) ∧ keywords.has "self".toList = false := by
          rintro ⟨keywords, hkeywords, haccepted, hself⟩
          exact h ⟨c, _, .mk hinvokes hverb hc hb hkeywords haccepted hself⟩
        rw [session_of_rejected hnot]
  · rw [runStatement_eq]
    split
    · rw [assign]
      split <;> rfl
    · rename_i hassigns
      split
      · rfl
      · split
        · rename_i hsupported
          split
          · rfl
          · rename_i command rest helements
            exact absurd ⟨command, rest, Bool.eq_false_iff.mpr hassigns, hsupported, helements⟩
              hinvokes
        · rfl

/-! ## Lines of one statement -/

def IsStatement (line : Text) (tokens : List Token) : Prop :=
  ∃ all, Token.scanStrict line = .ok all ∧ Statement.split none all = [(none, tokens)]

theorem reached_statement {line : Text} (h : IsStatement line tokens) (hne : tokens ≠ []) :
    reached shell session line = [(session, tokens)] := by
  obtain ⟨all, hline, hsplit⟩ := h
  have hsome : tokens.isEmpty = false := List.isEmpty_eq_false_iff.mpr hne
  simp only [reached, hline, hsplit, reachedFrom, lacking?, passesOver, hsome]
  cases runStatement shell session tokens <;> rfl

theorem runLine_statement {line : Text} (h : IsStatement line tokens) (hne : tokens ≠ []) :
    runLine shell session line = (runStatement shell session tokens).alone := by
  obtain ⟨all, hline, hsplit⟩ := h
  have hsome : tokens.isEmpty = false := List.isEmpty_eq_false_iff.mpr hne
  simp only [runLine, hline, hsplit, runStatements, hsome, reduceCtorEq, decide_false,
    Bool.false_and, Bool.or_self, Bool.false_eq_true, if_false]
  cases runStatement shell session tokens <;> rfl

end Session

end CommandShell
