import CommandShell.Completion
import CommandShell.Proofs.Binding.Keywords
import CommandShell.Proofs.Quoting.Invocation
import CommandShell.Session.Line

/-!
What is typed is what runs: a line that calls a command and gives every value by name calls its
action once, with the keywords of the parameters that were named.
-/

set_option autoImplicit false

namespace CommandShell

open Binding

namespace Statement

theorem split_operands {ts : List Token} (h : ∀ t ∈ ts, t.IsOperand) (before : Option Text)
    (n : Nat) : split before (ts ++ [Token.finish n]) = [(before, ts)] := by
  induction ts with
  | nil => rfl
  | cons t ts ih =>
    obtain ⟨ho, he⟩ := h t (by simp)
    have hs : isSeparator t = false := by simp [isSeparator, ho]
    rw [List.cons_append, split, ih fun u hu => h u (by simp [hu])]
    simp [he, hs]

theorem filter_isBoundary_operands {ts : List Token} (h : ∀ t ∈ ts, t.IsOperand) :
    ts.filter isBoundary = [] := by
  refine List.filter_eq_nil_iff.mpr fun t ht => ?_
  simp [isBoundary, (h t ht).1]

end Statement

def Action.recorded {σ : Type} (a : Action σ) : Action (σ × List Call) where
  takesAny := a.takesAny
  run call state :=
    let (outcome, after) := a.run call state.1
    (outcome, (after, state.2 ++ [call]))

/-- A command that its name and the names of its parameters call: no verb hides it, no two names or
keywords are the same, and every name can follow a dash. -/
structure Command.Typable {σ : Type} (c : Command σ) : Prop where
  verb : Text.lower c.name ∉ Completion.builtIn
  names : Parameter.Distinct c.parameters
  keywords : (c.parameters.map (·.keyword)).Nodup
  shape : ∀ p ∈ c.parameters, Sign.isParameterName p.name = true

theorem Command.Typable.name_ne_nil {σ : Type} {c : Command σ} (h : c.Typable) :
    ∀ p ∈ c.parameters, p.name ≠ [] := by
  intro p hp he
  have hshape := h.shape p hp
  rw [he] at hshape
  cases hshape

namespace Session

theorem Verb.of?_eq_none {name : Text} (h : Text.lower name ∉ Completion.builtIn) :
    Verb.of? name = none := by
  simp only [Completion.builtIn, List.map_cons, List.map_nil, List.mem_cons, List.not_mem_nil,
    or_false, not_or] at h
  simp only [Verb.of?, h, decide_false, Bool.or_self, Bool.false_eq_true, if_false]

variable {σ : Type}

def Ran.session : Ran σ → Session σ
  | .done _ _ session => session
  | .exited session => session
  | .raised _ session => session

def LineResult.session : LineResult σ → Session σ
  | .printed _ session => session
  | .exited session => session
  | .raised _ session => session

def Ran.alone : Ran σ → LineResult σ
  | .done output _ session => .printed (joined output.toList) session
  | .exited session => .exited session
  | .raised e session => .raised e session

@[simp] theorem Ran.alone_session (ran : Ran σ) : ran.alone.session = ran.session := by
  cases ran <;> rfl

variable {c : Command σ} {b : Binding} {keywords : Entries Text Datum} {session : Session σ}

theorem caught_cases (session : Session σ) (c : Command σ) (raised : Raised) :
    (∃ fault, session.caught c raised = session.refused fault) ∨
      ∃ inner, raised.told = .error inner ∧ session.caught c raised = .raised inner session := by
  unfold caught
  split
  · split
    · exact .inl ⟨_, rfl⟩
    · exact .inl ⟨_, rfl⟩
  · rename_i inner htold
    exact .inr ⟨inner, htold, rfl⟩

@[simp] theorem caught_session (session : Session σ) (c : Command σ) (raised : Raised) :
    (session.caught c raised).session = session := by
  obtain ⟨fault, h⟩ | ⟨inner, -, h⟩ := caught_cases session c raised <;> rw [h] <;> rfl

@[simp] theorem report_session (session : Session σ) (c : Command σ) (outcome : Outcome) :
    (session.report c outcome).session = session := by
  fun_cases report session c outcome <;> first | rfl | exact caught_session ..

theorem accepts_iff : (!b.attached.isEmpty && !c.action.takesAny) = false ↔
    b.attached = [] ∨ c.action.takesAny = true := by
  cases b.attached <;> cases c.action.takesAny <;> simp

theorem invoke_self (hk : b.keywords c session.vars = .ok keywords)
    (ha : b.attached = [] ∨ c.action.takesAny = true) (hs : keywords.has "self".toList = true) :
    session.invoke c b = session.misused c ⟨.type, InvocationFault.selfGiven.message⟩ := by
  simp only [invoke, outcome_of_keywords hk, hk, accepts_iff.mpr ha, hs, Bool.false_eq_true,
    if_false, if_true]
  rfl

theorem invoke_called (hk : b.keywords c session.vars = .ok keywords)
    (ha : b.attached = [] ∨ c.action.takesAny = true) (hs : keywords.has "self".toList = false) :
    let call := ⟨keywords, b.sources c session.vars session.assigned⟩
    session.invoke c b = { session with state := (c.action.run call session.state).2 }.report c
      (c.action.run call session.state).1 := by
  simp only [invoke, outcome_of_keywords hk, hk, accepts_iff.mpr ha, hs, Bool.false_eq_true,
    if_false]

theorem invoke_session (hk : b.keywords c session.vars = .ok keywords)
    (ha : b.attached = [] ∨ c.action.takesAny = true) (hs : keywords.has "self".toList = false) :
    (session.invoke c b).session = { session with
      state := (c.action.run ⟨keywords, b.sources c session.vars session.assigned⟩
        session.state).2 } := by
  rw [invoke_called hk ha hs, report_session]

/-- Without keywords that the command accepts nothing is called: the binding itself raises, or what
is wrong with it is caught. -/
theorem invoke_rejected
    (h : ¬ ∃ keywords, b.keywords c session.vars = .ok keywords ∧
      (b.attached = [] ∨ c.action.takesAny = true) ∧ keywords.has "self".toList = false) :
    (∃ raised, b.outcome = .error raised ∧ session.invoke c b = .raised raised session) ∨
      (∃ fault, b.outcome = .ok b ∧ b.keywords c session.vars = .error fault ∧
        session.invoke c b = session.caught c fault.raised) ∨
      ∃ fault : Fault, session.invoke c b = session.misused c fault := by
  cases hb : b.outcome with
  | error raised => exact .inl ⟨raised, rfl, by simp only [invoke, hb]⟩
  | ok b' =>
    obtain rfl := Binding.eq_of_outcome hb
    cases hk : b.keywords c session.vars with
    | error fault => exact .inr (.inl ⟨fault, rfl, rfl, by simp only [invoke, hb, hk]⟩)
    | ok keywords =>
      refine .inr (.inr ?_)
      by_cases ha : b.attached = [] ∨ c.action.takesAny = true
      · cases hs : keywords.has "self".toList with
        | true => exact ⟨_, invoke_self hk ha hs⟩
        | false => exact absurd ⟨keywords, hk, ha, hs⟩ h
      · have hrefused := Bool.of_not_eq_false (mt accepts_iff.mp ha)
        exact ⟨_, by simp only [invoke, hb, hk, hrefused, if_true]; rfl⟩

theorem session_of_rejected
    (h : ¬ ∃ keywords, b.keywords c session.vars = .ok keywords ∧
      (b.attached = [] ∨ c.action.takesAny = true) ∧ keywords.has "self".toList = false) :
    (session.invoke c b).session = session := by
  rcases invoke_rejected h with ⟨_, -, hi⟩ | ⟨_, -, -, hi⟩ | ⟨_, hi⟩ <;> rw [hi]
  · rfl
  · exact caught_session ..
  · rfl

variable {shell : Shell σ}

theorem dispatch_command {command : Element} (hv : Text.lower command.text ∉ Completion.builtIn)
    (hc : shell.registry.get? command.text = some c) (elements : List Element) :
    dispatch shell session command elements =
      session.invoke c (bind elements (-1) c.parameters (some shell.types)) := by
  simp only [dispatch, Verb.of?_eq_none hv, hc]

theorem runStatement_operands {t : Token} (ht : t.IsArgument) {ts : List Token}
    (h : ∀ u ∈ ts, u.IsOperand) :
    runStatement shell session (t :: ts) = dispatch shell session (Element.ofToken t)
      (Element.ofToken t :: ts.map Element.ofToken) := by
  have hall : ∀ u ∈ t :: ts, u.IsOperand := List.forall_mem_cons.mpr ⟨ht.isOperand, h⟩
  have hoperators : unsupported (t :: ts) = [] := by
    rw [unsupported, Statement.filter_isBoundary_operands hall]
    simp [Parameter.sortedNames]
  have helements := @Element.ofTokens_operands _ hall [] (by simp)
  rw [List.append_nil, Element.ofTokens_nil, List.append_nil, List.map_cons] at helements
  cases ts with
  | nil => simp only [runStatement, hoperators, helements]
  | cons u ts =>
    simp only [runStatement, hoperators, helements, ht.kind_ne.2, decide_false, Bool.false_and,
      Bool.false_eq_true, if_false]

theorem runLine_operands {line : Text} {t : Token} {ts : List Token} {n : Nat}
    (hline : Token.scanStrict line = .ok (t :: ts ++ [Token.finish n]))
    (h : ∀ u ∈ t :: ts, u.IsOperand) :
    runLine shell session line = (runStatement shell session (t :: ts)).alone := by
  simp only [runLine, hline, Statement.split_operands h, runStatements, List.isEmpty_cons,
    reduceCtorEq, decide_false, Bool.false_and, Bool.or_self, Bool.false_eq_true, if_false]
  cases runStatement shell session (t :: ts) <;> rfl

variable {pairs : List (Parameter × Text)}

/-- What is written for every value reaches the command as a clean binding of just that. -/
theorem runLine_eq_invoke (hc : shell.registry.get? c.name = some c) (ht : c.Typable)
    (hp : Choice c.parameters pairs) (session : Session σ) :
    ∃ b : Binding, (b.named = arguments pairs ∧ b.errors = [] ∧ b.positional = [] ∧
      b.attached = []) ∧
      runLine shell session (Quoting.invocation c.name pairs) = (session.invoke c b).alone := by
  obtain ⟨t, ts, n, hscan, hargument, hvalue, hnamed⟩ := Quoting.scanStrict_invocation c.name
    fun g hg => ht.shape g.1 (hp.declared g hg)
  have hbind := bind_named hnamed ht.names hp ht.name_ne_nil (Element.ofToken t) (some shell.types)
  have hname : (Element.ofToken t).text = c.name := by rw [Element.ofToken_text, hvalue]
  have hoperands : ∀ u ∈ t :: ts, u.IsOperand :=
    List.forall_mem_cons.mpr ⟨hargument.isOperand, hnamed.isOperand⟩
  refine ⟨_, hbind, ?_⟩
  rw [runLine_operands hscan hoperands, runStatement_operands hargument hnamed.isOperand,
    dispatch_command (hname.symm ▸ ht.verb) (hname.symm ▸ hc)]

def keywordsOf (pairs : List (Parameter × Text)) : Entries Text Datum :=
  pairs.map fun g => (g.1.keyword, .text g.2)

theorem has_self_keywordsOf : (keywordsOf pairs).has "self".toList = true ↔
    "self".toList ∈ pairs.map (·.1.keyword) := by
  simp [keywordsOf, Entries.has, Function.comp_def]

theorem runLine_self (hc : shell.registry.get? c.name = some c) (ht : c.Typable)
    (hp : Choice c.parameters pairs) (hs : "self".toList ∈ pairs.map (·.1.keyword))
    (session : Session σ) :
    runLine shell session (Quoting.invocation c.name pairs) =
      (session.misused c ⟨.type, InvocationFault.selfGiven.message⟩).alone := by
  obtain ⟨b, hb, hrun⟩ := runLine_eq_invoke hc ht hp session
  have hk := keywords_named hb ht.names ht.keywords hp session.vars
  rw [hrun, invoke_self hk (.inl hb.2.2.2) (has_self_keywordsOf.mpr hs)]

theorem runLine_session (hc : shell.registry.get? c.name = some c) (ht : c.Typable)
    (hp : Choice c.parameters pairs) (hs : "self".toList ∉ pairs.map (·.1.keyword))
    (session : Session σ) :
    (runLine shell session (Quoting.invocation c.name pairs)).session =
      { session with state := (c.action.run ⟨keywordsOf pairs, []⟩ session.state).2 } := by
  obtain ⟨b, hb, hrun⟩ := runLine_eq_invoke hc ht hp session
  have hk := keywords_named hb ht.names ht.keywords hp session.vars
  have hself : (keywordsOf pairs).has "self".toList = false := by
    rw [← Bool.not_eq_true, has_self_keywordsOf]
    exact hs
  rw [hrun, Ran.alone_session, invoke_session hk (.inl hb.2.2.2) hself, sources_named hb.1]
  rfl

/-- What is typed runs exactly once and with exactly the keywords of what was named, whatever else
the command declares. The one exception is the keyword `self`, which is taken: then nothing runs. -/
theorem runLine_invocation {a : Action σ} {c : Command (σ × List Call)} (ha : c.action = a.recorded)
    {shell : Shell (σ × List Call)} (hc : shell.registry.get? c.name = some c) (ht : c.Typable)
    {pairs : List (Parameter × Text)} (hp : Choice c.parameters pairs)
    (session : Session (σ × List Call)) :
    ("self".toList ∉ pairs.map (·.1.keyword) →
      (runLine shell session (Quoting.invocation c.name pairs)).session = { session with
        state := ((a.run ⟨keywordsOf pairs, []⟩ session.state.1).2,
          session.state.2 ++ [⟨keywordsOf pairs, []⟩]) }) ∧
    ("self".toList ∈ pairs.map (·.1.keyword) →
      runLine shell session (Quoting.invocation c.name pairs) = .printed
        (some (LineFault.misused InvocationFault.selfGiven.message c.usage).message) session) := by
  constructor
  · intro hs
    rw [runLine_session hc ht hp hs session, ha]
    rfl
  · intro hs
    rw [runLine_self hc ht hp hs session]
    simp only [misused, refused, Ran.alone, Option.toList, joined, Text.join_cons, List.flatMap_nil,
      List.append_nil]

def passedAs (key : Text) : Parameter := ⟨['S'], [], none, false, .text, key, []⟩

def go (key : Text) : Command (Unit × List Call) where
  name := ['G', 'o']
  description := []
  example? := []
  action := Action.recorded ⟨true, fun _ state => (.value .null, state)⟩
  parameters := [passedAs key]
  origin := []
  category := Command.general
  completers := []
  aliases := []

def goShell (key : Text) : Shell (Unit × List Call) :=
  ⟨(Registry.empty.register (go key)).1, TypeRegistry.empty⟩

theorem get?_goShell (key : Text) : (goShell key).registry.get? (go key).name = some (go key) :=
  Registry.get?_register rfl

theorem typable_go (key : Text) : (go key).Typable where
  verb := by
    change Text.lower ['G', 'o'] ∉ Completion.builtIn
    decide +kernel
  names := by simp [go, Parameter.Distinct, Parameter.keys, Parameter.names, passedAs]
  keywords := List.pairwise_singleton _ _
  shape := by
    intro p hp
    obtain rfl := List.mem_singleton.mp hp
    change Sign.isParameterName ['S'] = true
    decide +kernel

theorem choice_go (key v : Text) : Choice (go key).parameters [(passedAs key, v)] where
  declared := by simp [go]
  takesText := by simp [passedAs]
  once := List.pairwise_singleton _ _

theorem runLine_invocation_go :
    (runLine (goShell "size".toList) (start [] ((), [])) "Go -S 'a b'".toList).session.state.2 =
      [⟨[("size".toList, .text "a b".toList)], []⟩] := by
  have hline : Quoting.invocation (go "size".toList).name [(passedAs "size".toList, "a b".toList)] =
      "Go -S 'a b'".toList := by decide +kernel
  have hrun := (runLine_invocation rfl (get?_goShell _) (typable_go _)
    (choice_go "size".toList "a b".toList) (start [] ((), []))).1 (by decide)
  rw [← hline, hrun]
  rfl

/-- The keyword `self` meets every condition and is not called all the same. -/
theorem runLine_go_self :
    (goShell "self".toList).registry.get? (go "self".toList).name = some (go "self".toList) ∧
      (go "self".toList).Typable ∧
      Choice (go "self".toList).parameters [(passedAs "self".toList, ['x'])] ∧
      Quoting.invocation (go "self".toList).name [(passedAs "self".toList, ['x'])] =
        "Go -S x".toList ∧
      (runLine (goShell "self".toList) (start [] ((), [])) "Go -S x".toList).session.state.2 =
        [] := by
  have hline : Quoting.invocation (go "self".toList).name [(passedAs "self".toList, ['x'])] =
      "Go -S x".toList := by decide +kernel
  refine ⟨get?_goShell _, typable_go _, choice_go _ _, hline, ?_⟩
  rw [← hline, runLine_self (get?_goShell _) (typable_go _) (choice_go _ _) (by decide)]
  rfl

end Session

end CommandShell
