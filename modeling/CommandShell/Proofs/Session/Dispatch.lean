import CommandShell.Proofs.Element.Parts
import CommandShell.Proofs.Session.Ending

/-!
What a statement runs. A verb or a command runs only when the text of the first element names it.
The text is what the first token stands for, commas before it left out, or a list that begins with
that token. Of which kind the token is does not count: a parameter or a variable names a verb as
well as a word does.
-/

set_option autoImplicit false

namespace CommandShell

variable {σ : Type}

theorem Parameter.mem_sortedNames {name : Text} {names : List Text} :
    name ∈ sortedNames names ↔ name ∈ names := by
  have hfound (found : List Text) : name ∈ names.foldl (fun found name =>
      if found.contains name then found else found ++ [name]) found ↔
        name ∈ found ∨ name ∈ names := by
    induction names generalizing found with
    | nil => simp
    | cons first rest ih =>
      rw [List.foldl_cons, ih, List.mem_cons]
      split
      · rename_i hmem
        have hfirst : first ∈ found := by simpa using hmem
        constructor
        · exact Or.imp_right .inr
        · rintro (h | rfl | h)
          exacts [.inl h, .inl hfirst, .inr h]
      · rw [List.mem_append, List.mem_singleton, or_assoc]
  rw [sortedNames, List.mem_mergeSort, hfound []]
  simp

namespace Statement

theorem kind_ne_of_mem_split {s : Option Text × List Token} {before : Option Text}
    {ts : List Token} (hs : s ∈ split before ts) : ∀ t ∈ s.2, t.kind ≠ .endOfInput := by
  induction ts generalizing before s with
  | nil =>
    obtain rfl := List.mem_singleton.mp hs
    simp
  | cons u ts ih =>
    rw [split] at hs
    split at hs
    · obtain rfl := List.mem_singleton.mp hs
      simp
    · rename_i hu
      split at hs
      · rcases List.mem_cons.mp hs with rfl | hs
        · simp
        · exact ih hs
      · obtain ⟨tokens, later, hts⟩ := exists_split ts
        have hall : ∀ s ∈ (before, tokens) :: later, ∀ t ∈ s.2, t.kind ≠ .endOfInput :=
          fun s hs => ih (hts before ▸ hs)
        rw [hts before] at hs
        obtain ⟨hfirst, hlater⟩ := List.forall_mem_cons.mp hall
        rcases List.mem_cons.mp hs with rfl | hs
        · exact List.forall_mem_cons.mpr ⟨by simpa using hu, hfirst⟩
        · exact hlater s hs

end Statement

namespace Element

variable {tokens : List Token}

/-- The first element begins with the first token that is no operator. A parameter is alone in
it. -/
theorem ofTokens_head {e : Element} {es : List Element} (h : ofTokens tokens = e :: es) :
    ∃ before t rest, tokens = before ++ t :: rest ∧
      (∀ u ∈ before, u.kind = .endOfInput ∨ u.kind = .operator) ∧ t.IsOperand ∧
      (e.parts = [t] ∨ t.kind ≠ .parameter ∧ ∃ u more, e.parts = t :: u :: more) := by
  fun_induction ofTokens tokens with
  | case1 => cases h
  | case2 u rest hu ih =>
    obtain ⟨before, t, rest, rfl, hbefore, htail⟩ := ih h
    have hkind : u.kind = .endOfInput ∨ u.kind = .operator := by simpa using hu
    exact ⟨u :: before, t, rest, rfl, List.forall_mem_cons.mpr ⟨hkind, hbefore⟩, htail⟩
  | case3 t rest _ hk =>
    obtain ⟨rfl, -⟩ := List.cons.inj h
    have hparameter : t.kind = .parameter := by simpa using hk
    exact ⟨[], t, rest, rfl, by simp, by simp [Token.IsOperand, hparameter], .inl rfl⟩
  | case4 t rest hk hp =>
    obtain ⟨rfl, -⟩ := List.cons.inj h
    have ht := isOperand_of_continuesList (continuesList_of_not hk hp)
    refine ⟨[], t, rest, rfl, by simp, ht, ?_⟩
    cases hothers : (listTail rest).1 with
    | nil => exact .inl rfl
    | cons u more => exact .inr ⟨by simpa using hp, u, more, rfl⟩

theorem text_of_parts {e : Element} {t : Token} (h : e.parts = [t]) : e.text = t.value := by
  rw [text, h]
  simp [Text.join_cons]

end Element

namespace Session

open Statement Binding

inductive Target (σ : Type) where
  | verb (verb : Verb)
  | command (command : Command σ)

def Verb.names : Verb → List Text
  | .help => ["help".toList]
  | .leave => ["exit".toList, "quit".toList]
  | .clear => ["clear".toList, "cls".toList]

/-- A verb by one of its names, in any case; a command by its name or another name of it. -/
inductive Target.Named (r : Registry σ) (name : Text) : Target σ → Prop where
  | verb {v : Verb} : Text.lower name ∈ v.names → Named r name (.verb v)
  | command {c : Command σ} : c ∈ r.all → c.IsNamed name → Named r name (.command c)

def perform (shell : Shell σ) (session : Session σ) (elements : List Element) :
    Target σ → Ran σ
  | .verb .leave => .exited session
  | .verb .clear => .done none true { session with clears := session.clears + 1 }
  | .verb .help => .done (some (match elements[1]? with
      | none => Help.overview shell.registry
      | some target => Help.on shell.registry target.text)) true session
  | .command c => session.invoke c (bind elements (-1) c.parameters (some shell.types))

/-- A statement that runs no verb and no command: it is empty, sets a variable, has no elements that
could be run, or begins with a name that stands for nothing. -/
inductive Idle (shell : Shell σ) (session : Session σ) (tokens : List Token) : Ran σ → Prop where
  | empty : tokens = [] → Idle shell session tokens (.done none true session)
  | assigns (output : Option Text) (ok : Bool) (vars : Variables) (assigned : Entries Text Nat) :
      assigns tokens = true →
      Idle shell session tokens
        (.done output ok { session with vars := vars, assigned := assigned })
  | refused (fault : LineFault) : (¬ ∃ e es, Invokes tokens (e :: es)) →
      Idle shell session tokens (session.refused fault)
  | unknown (e : Element) (es : List Element) : Invokes tokens (e :: es) →
      (∀ v : Verb, Text.lower e.text ∉ v.names) → shell.registry.get? e.text = none →
      Idle shell session tokens
        (session.refused (.unknownCommand e.text (Help.similar shell.registry e.text)))

/-- The first token of a statement, commas apart, and the first element: its text is the value of
the token, unless commas join others to it. -/
structure Begins (tokens : List Token) (t : Token) (e : Element) : Prop where
  first : (tokens.dropWhile (·.isOperator [','])).head? = some t
  text : e.text = t.value ∨ t.kind ≠ .parameter ∧ ∃ u more, e.parts = t :: u :: more

variable {shell : Shell σ} {session : Session σ} {tokens : List Token}

theorem Verb.of?_eq_some {name : Text} {v : Verb} :
    Verb.of? name = some v ↔ Text.lower name ∈ v.names := by
  constructor
  · intro h
    rw [Verb.of?] at h
    split at h
    · rename_i hname
      obtain rfl := Option.some.inj h
      simpa [Verb.names] using hname
    · split at h
      · rename_i hname
        obtain rfl := Option.some.inj h
        simpa [Verb.names] using hname
      · split at h
        · rename_i hname
          obtain rfl := Option.some.inj h
          simpa [Verb.names] using hname
        · cases h
  · intro h
    cases v <;> simp only [Verb.names, List.mem_cons, List.not_mem_nil, or_false] at h
    · rw [Verb.of?, h]
      decide
    · rw [Verb.of?]
      rcases h with h | h <;> rw [h] <;> decide
    · rw [Verb.of?]
      rcases h with h | h <;> rw [h] <;> decide

theorem perform_verb (v : Verb) {command : Element} (elements : List Element)
    (h : Verb.of? command.text = some v) :
    dispatch shell session command elements = perform shell session elements (.verb v) := by
  rw [dispatch, h]
  cases v with
  | leave => rfl
  | clear => rfl
  | help =>
    rw [perform]
    dsimp only
    cases elements[1]? <;> rfl

theorem Idle.session_eq {ran : Ran σ} (h : Idle shell session tokens ran) :
    ∃ output ok vars assigned,
      ran = .done output ok { session with vars := vars, assigned := assigned } := by
  cases h with
  | empty => exact ⟨none, true, session.vars, session.assigned, rfl⟩
  | assigns output ok vars assigned => exact ⟨output, ok, vars, assigned, rfl⟩
  | refused fault => exact ⟨some fault.message, false, session.vars, session.assigned, rfl⟩
  | unknown => exact ⟨_, false, session.vars, session.assigned, rfl⟩

theorem idle_assign (h : assigns tokens = true) (name : Text) (values : List Token) :
    Idle shell session tokens (session.assign name values) := by
  rw [assign]
  split
  · exact .assigns _ false session.vars session.assigned h
  · exact .assigns none true _ _ h
  · exact .assigns none true _ _ h

theorem isOperator_comma (h : unsupported tokens = []) {t : Token} (ht : t ∈ tokens)
    (hk : t.kind = .operator) : t.isOperator [','] = true := by
  by_contra hcomma
  have hboundary : isBoundary t = true := by
    simpa [isBoundary, Token.isOperator, hk] using hcomma
  have hmem : t.value ∈ unsupported tokens := by
    rw [unsupported, Parameter.mem_sortedNames]
    exact List.mem_map_of_mem (List.mem_filter.mpr ⟨ht, hboundary⟩)
  rw [h] at hmem
  cases hmem

theorem Invokes.begins {e : Element} {es : List Element} (h : Invokes tokens (e :: es))
    (hend : ∀ t ∈ tokens, t.kind ≠ .endOfInput) : ∃ t, Begins tokens t e := by
  obtain ⟨before, t, rest, rfl, hbefore, ht, hparts⟩ := Element.ofTokens_head h.elements
  have hcommas : ∀ u ∈ before, u.isOperator [','] = true := fun u hu => by
    have hmem : u ∈ before ++ t :: rest := List.mem_append_left _ hu
    exact isOperator_comma h.supported hmem ((hbefore u hu).resolve_left (hend u hmem))
  refine ⟨t, ?_, hparts.imp_left Element.text_of_parts⟩
  rw [List.dropWhile_append_of_pos hcommas,
    List.dropWhile_cons_of_neg (by simp [Token.isOperator_eq_false ht.1]), List.head?_cons]

/-- Every statement of a line is idle, or runs the verb or the registered command that the text of
its first element names. The text is the value of the first token, or a list that begins with it. -/
theorem runStatement_target (hr : shell.registry.Registered) (session : Session σ) {line : Text}
    {s : Option Text × List Token} (hs : s ∈ Statement.split none (Token.scan line)) :
    Idle shell session s.2 (runStatement shell session s.2) ∨
      ∃ t e es, ∃ target : Target σ, Invokes s.2 (e :: es) ∧ Begins s.2 t e ∧
        target.Named shell.registry e.text ∧
        runStatement shell session s.2 = perform shell session (e :: es) target := by
  by_cases hinvokes : ∃ e es, Invokes s.2 (e :: es)
  · obtain ⟨e, es, hinvokes⟩ := hinvokes
    obtain ⟨t, hbegins⟩ := hinvokes.begins (kind_ne_of_mem_split hs)
    rw [runStatement_of_invokes hinvokes]
    cases hverb : Verb.of? e.text with
    | some v =>
      exact .inr ⟨t, e, es, .verb v, hinvokes, hbegins, .verb (Verb.of?_eq_some.mp hverb),
        perform_verb v (e :: es) hverb⟩
    | none =>
      cases hc : shell.registry.get? e.text with
      | none =>
        have hnone : ∀ v : Verb, Text.lower e.text ∉ v.names := fun v hv => by
          rw [Verb.of?_eq_some.mpr hv] at hverb
          cases hverb
        rw [dispatch, hverb]
        dsimp only
        rw [hc]
        exact .inl (.unknown e es hinvokes hnone hc)
      | some c =>
        obtain ⟨hmem, hnamed⟩ := hr.keyed.get?_isNamed hc
        refine .inr ⟨t, e, es, .command c, hinvokes, hbegins, .command hmem hnamed, ?_⟩
        rw [dispatch, hverb]
        dsimp only
        rw [hc]
        rfl
  · left
    rw [runStatement_eq]
    split
    · rename_i hassigns
      exact idle_assign hassigns _ _
    · rename_i hassigns
      split
      · rename_i hempty
        exact .empty (List.isEmpty_iff.mp hempty)
      · split
        · rename_i hsupported
          split
          · exact .refused _ hinvokes
          · rename_i e es helements
            exact absurd ⟨e, es, Bool.eq_false_iff.mpr hassigns, hsupported, helements⟩ hinvokes
        · exact .refused _ hinvokes

theorem runStatement_target_go :
    let shell := goShell "size".toList
    let session : Session (Unit × List Call) := start [] ((), [])
    let line := "$n = 1; 'gO' -S x".toList
    let s : Option Text × List Token := (some [';'], ((Token.scan line).drop 4).dropLast)
    shell.registry.Registered ∧ s ∈ Statement.split none (Token.scan line) ∧
      ∃ t e es, ∃ target : Target (Unit × List Call), Invokes s.2 (e :: es) ∧ Begins s.2 t e ∧
        target.Named shell.registry e.text ∧
        runStatement shell session s.2 = perform shell session (e :: es) target := by
  intro shell session line s
  have hr : shell.registry.Registered := .register _ .empty
  have hs : s ∈ Statement.split none (Token.scan line) := by decide +kernel
  refine ⟨hr, hs, (runStatement_target hr session hs).resolve_left fun hidle => ?_⟩
  obtain ⟨output, ok, vars, assigned, hrun⟩ := hidle.session_eq
  have hcalled : (runStatement shell session s.2).session.state.2.length = 1 := by decide +kernel
  rw [hrun] at hcalled
  cases hcalled

/-- A parameter, a variable and a stray comma before a word name a verb all the same. -/
theorem runLine_named_exit :
    let first (line : Text) := (Token.scan line).head?.map (·.kind)
    let leaves (line : Text) : Bool :=
      match runLine (goShell "size".toList) (start [] ((), [])) line with
      | .exited _ => true
      | _ => false
    (first "-exit".toList = some .parameter ∧ leaves "-exit".toList = true) ∧
      (first "-exit:now".toList = some .parameter ∧ leaves "-exit:now".toList = true) ∧
      (first "$exit".toList = some .reference ∧ leaves "$exit".toList = true) ∧
      first ",exit".toList = some .operator ∧ leaves ",exit".toList = true := by
  decide +kernel

end Session

end CommandShell
