import CommandShell.Proofs.Binding.Readings
import CommandShell.Proofs.Command.Registry
import CommandShell.Proofs.Number.Reading
import CommandShell.Proofs.Session.Chain

/-!
Running a line step by step, with no answer wherever something is asked for that may not be there: a
number that cannot be read, a name that stands for no command, a parameter that is already taken.
None of these comes up, so the answer is always that of the run.
-/

set_option autoImplicit false

namespace CommandShell

namespace Statement

variable {s : Option Text × List Token}

theorem mem_of_mem_split {before : Option Text} {ts : List Token} (hs : s ∈ split before ts) :
    ∀ t ∈ s.2, t ∈ ts := by
  induction ts generalizing before s with
  | nil =>
    obtain rfl := List.mem_singleton.mp hs
    simp
  | cons u ts ih =>
    rw [split] at hs
    split at hs
    · obtain rfl := List.mem_singleton.mp hs
      simp
    · split at hs
      · rcases List.mem_cons.mp hs with rfl | hs
        · simp
        · exact fun t ht => List.mem_cons_of_mem u (ih hs t ht)
      · obtain ⟨tokens, later, hts⟩ := exists_split ts
        rw [hts before] at hs
        have hmem : ∀ s ∈ (before, tokens) :: later, ∀ t ∈ s.2, t ∈ ts :=
          fun s hs => ih (hts before ▸ hs)
        rcases List.mem_cons.mp hs with rfl | hs
        · intro t ht
          rcases List.mem_cons.mp ht with rfl | ht
          · exact List.mem_cons_self
          · exact List.mem_cons_of_mem u (hmem _ List.mem_cons_self t ht)
        · exact fun t ht => List.mem_cons_of_mem u (hmem s (List.mem_cons_of_mem _ hs) t ht)

/-- The operator that lacks a command, at an empty statement that may not be empty. -/
def lacking? (s : Option Text × List Token) (rest : List (Option Text × List Token)) :
    Option Text :=
  if !s.2.isEmpty then none
  else match s.1 with
    | some operator => if isConditional (some operator) then some operator else none
    | none => (rest.head?.bind (·.1)).filter fun next => isConditional (some next)

end Statement

namespace Session

open Statement Binding

variable {σ : Type}

def literal? (t : Token) : Option Datum :=
  if t.kind = .number then (Binary64.read? t.value).map fun _ => literal t else some (literal t)

def assign? (session : Session σ) (name : Text) (tokens : List Token) : Option (Ran σ) := do
  let values ← (tokens.filter fun t => !t.isOperator [',']).mapM literal?
  pure (match values with
    | [] => session.refused (.missingValue name)
    | [d] => .done none true (session.put name d)
    | several => .done none true (session.put name (.list several)))

/-- The binding of a call. There is no answer when a parameter is taken that is not available. -/
def bind? (elements : List Element) (declared : List Parameter) (types : TypeRegistry) :
    Option Binding := do
  let left ← (Pass.start declared).available.eraseAll?
    (takenKeys (writes declared (some types) elements))
  pure { bind elements (-1) declared (some types) with available := left.map (·.2) }

def dispatch? (shell : Shell σ) (session : Session σ) (command : Element)
    (elements : List Element) : Option (Ran σ) :=
  match Verb.of? command.text with
  | some .leave => some (.exited session)
  | some .clear => some (.done none true { session with clears := session.clears + 1 })
  | some .help =>
    match elements[1]? with
    | none => some (.done (some (Help.overview shell.registry)) true session)
    | some target => do
      let _ ← shell.registry.lookup? target.text
      pure (.done (some (Help.on shell.registry target.text)) true session)
  | none => do
    match ← shell.registry.lookup? command.text with
    | none =>
      pure (session.refused
        (.unknownCommand command.text (Help.similar shell.registry command.text)))
    | some c => do
      let b ← bind? elements c.parameters shell.types
      pure (session.invoke c b)

def assigns : List Token → Bool
  | first :: second :: _ => first.kind = .reference && second.value = ['=']
  | _ => false

/-- A statement, as far as every step outside the call of its command has an answer. -/
def runStatement? (shell : Shell σ) (session : Session σ) (tokens : List Token) :
    Option (Ran σ) :=
  if assigns tokens then session.assign? ((tokens.head?.map (·.value)).getD []) (tokens.drop 2)
  else if tokens.isEmpty then some (.done none true session)
  else
    match unsupported tokens with
    | [] =>
      match Element.ofTokens tokens with
      | [] => some (session.refused .strayComma)
      | command :: rest => dispatch? shell session command (command :: rest)
    | operators => some (session.refused (.unsupported operators))

def runStatements? (shell : Shell σ) (outputs : List Text) (ok : Bool) (session : Session σ) :
    List (Option Text × List Token) → Option (LineResult σ)
  | [] => some (.printed (joined outputs) session)
  | s :: rest =>
    match lacking? s rest with
    | some operator => some (.printed (some (LineFault.missingCommand operator).message) session)
    | none =>
      if passesOver ok s then runStatements? shell outputs ok session rest
      else do
        match ← runStatement? shell session s.2 with
        | .exited session => pure (.exited session)
        | .raised e session => pure (.raised e session)
        | .done output ok session =>
          runStatements? shell (outputs ++ output.toList) ok session rest

def runLine? (shell : Shell σ) (session : Session σ) (line : Text) : Option (LineResult σ) :=
  match Token.scanStrict line with
  | .error fault => some (.printed (some (LineFault.syntaxFault fault).message) session)
  | .ok tokens => runStatements? shell [] true session (Statement.split none tokens)

variable {shell : Shell σ} {tokens : List Token} {xs : List (Option Text × List Token)}

theorem literal?_eq {t : Token}
    (h : t.kind = .number → (Binary64.read? t.value).isSome = true) :
    literal? t = some (literal t) := by
  rw [literal?]
  split
  · rename_i hk
    obtain ⟨x, hx⟩ := Option.isSome_iff_exists.mp (h hk)
    rw [hx, Option.map_some]
  · rfl

theorem mapM_literal?_eq
    (h : ∀ t ∈ tokens, t.kind = .number → (Binary64.read? t.value).isSome = true) :
    tokens.mapM literal? = some (tokens.map literal) := by
  induction tokens with
  | nil => rfl
  | cons t tokens ih =>
    obtain ⟨ht, htokens⟩ := List.forall_mem_cons.mp h
    rw [List.mapM_cons, literal?_eq ht, ih htokens]
    rfl

theorem assign?_eq (session : Session σ) (name : Text)
    (h : ∀ t ∈ tokens, t.kind = .number → (Binary64.read? t.value).isSome = true) :
    session.assign? name tokens = some (session.assign name tokens) := by
  rw [assign?, mapM_literal?_eq fun t ht => h t (List.mem_of_mem_filter ht)]
  rfl

theorem bind?_eq (elements : List Element) (declared : List Parameter) (types : TypeRegistry) :
    bind? elements declared types = some (bind elements (-1) declared (some types)) := by
  obtain ⟨left, hleft, havailable⟩ :=
    Option.map_eq_some_iff.mp (bind_available elements (-1) declared (some types))
  simp only [bind?, hleft, Option.bind_eq_bind, Option.bind_some, havailable]
  rfl

theorem dispatch?_eq (hr : shell.registry.Closed) (session : Session σ) (command : Element)
    (elements : List Element) :
    dispatch? shell session command elements = some (dispatch shell session command elements) := by
  rw [dispatch?, dispatch]
  cases Verb.of? command.text with
  | some verb =>
    cases verb with
    | leave => rfl
    | clear => rfl
    | help =>
      cases elements[1]? with
      | none => rfl
      | some target =>
        dsimp only
        rw [hr.lookup?_eq]
        rfl
  | none =>
    dsimp only
    rw [hr.lookup?_eq]
    cases shell.registry.get? command.text with
    | none => rfl
    | some c =>
      simp only [Option.bind_eq_bind, Option.bind_some, bind?_eq]
      rfl

theorem runStatement_eq (shell : Shell σ) (session : Session σ) (tokens : List Token) :
    runStatement shell session tokens =
      if assigns tokens then session.assign ((tokens.head?.map (·.value)).getD []) (tokens.drop 2)
      else if tokens.isEmpty then .done none true session
      else
        match unsupported tokens with
        | [] =>
          match Element.ofTokens tokens with
          | [] => session.refused .strayComma
          | command :: rest => dispatch shell session command (command :: rest)
        | operators => session.refused (.unsupported operators) := by
  match tokens with
  | [] => rfl
  | [_] => rfl
  | first :: second :: rest =>
    rw [runStatement, assigns]
    rfl

theorem runStatement?_eq (hr : shell.registry.Closed) (session : Session σ)
    (h : ∀ t ∈ tokens, t.kind = .number → (Binary64.read? t.value).isSome = true) :
    runStatement? shell session tokens = some (runStatement shell session tokens) := by
  rw [runStatement?, runStatement_eq]
  split
  · exact assign?_eq session _ fun t ht => h t (List.mem_of_mem_drop ht)
  · split
    · rfl
    · split
      · split
        · rfl
        · exact dispatch?_eq hr session _ _
      · rfl

theorem runStatements_cons (shell : Shell σ) (outputs : List Text) (ok : Bool)
    (session : Session σ) (s : Option Text × List Token)
    (rest : List (Option Text × List Token)) :
    runStatements shell outputs ok session (s :: rest) =
      match lacking? s rest with
      | some operator => .printed (some (LineFault.missingCommand operator).message) session
      | none =>
        if passesOver ok s then runStatements shell outputs ok session rest
        else
          match runStatement shell session s.2 with
          | .exited session => .exited session
          | .raised e session => .raised e session
          | .done output ok session =>
            runStatements shell (outputs ++ output.toList) ok session rest := by
  obtain ⟨operator, tokens⟩ := s
  cases tokens with
  | cons t tokens =>
    have hlacking : lacking? (operator, t :: tokens) rest = none := rfl
    rw [hlacking]
    dsimp only
    cases hp : passesOver ok (operator, t :: tokens) with
    | false =>
      rw [if_neg (by simp)]
      exact runStatements_run hp
    | true =>
      rw [if_pos rfl, runStatements.eq_def]
      exact (if_neg (by simp)).trans (if_pos hp)
  | nil =>
    rw [runStatements.eq_def]
    cases operator with
    | some operator =>
      have hlacking : lacking? (some operator, []) rest =
          if isConditional (some operator) then some operator else none := rfl
      rw [hlacking]
      dsimp only
      cases isConditional (some operator) <;> rfl
    | none =>
      rcases rest with _ | ⟨⟨_ | next, tokens⟩, rest⟩
      · rfl
      · rfl
      · have hlacking : lacking? (none, []) ((some next, tokens) :: rest) =
            if isConditional (some next) then some next else none := by
          simp [lacking?, Option.filter]
        rw [hlacking]
        dsimp only
        cases isConditional (some next) <;> rfl

theorem runStatements?_eq (hr : shell.registry.Closed)
    (h : ∀ s ∈ xs, ∀ t ∈ s.2, t.kind = .number → (Binary64.read? t.value).isSome = true)
    (outputs : List Text) (ok : Bool) (session : Session σ) :
    runStatements? shell outputs ok session xs =
      some (runStatements shell outputs ok session xs) := by
  induction xs generalizing outputs ok session with
  | nil => rfl
  | cons s rest ih =>
    obtain ⟨hs, hrest⟩ := List.forall_mem_cons.mp h
    rw [runStatements?, runStatements_cons]
    cases lacking? s rest with
    | some operator => rfl
    | none =>
      dsimp only
      split
      · exact ih hrest outputs ok session
      · rw [runStatement?_eq hr session hs]
        cases runStatement shell session s.2 with
        | exited | raised => rfl
        | done output ok session => exact ih hrest _ ok session

end Session

end CommandShell
