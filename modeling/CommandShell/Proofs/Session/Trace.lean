import CommandShell.Proofs.Session.Ending

/-!
The statements that lines reach, each in the session that those before it left.
-/

set_option autoImplicit false

namespace CommandShell.Session

open Statement

variable {σ : Type} {shell : Shell σ} {session final between : Session σ} {outputs : List Text}
  {ok : Bool} {ran others before later : List (Session σ × List Token)}

/-- Statements that ran one after another, each in the session that those before it left. -/
inductive Chained (shell : Shell σ) : Session σ → List (Session σ × List Token) → Session σ → Prop
  where
  | nil {session : Session σ} : Chained shell session [] session
  | cons {session final : Session σ} {tokens : List Token} {rest : List (Session σ × List Token)} :
      Chained shell (runStatement shell session tokens).session rest final →
      Chained shell session ((session, tokens) :: rest) final

theorem Chained.append (h : Chained shell session ran between)
    (h' : Chained shell between others final) : Chained shell session (ran ++ others) final := by
  induction h with
  | nil => exact h'
  | cons _ ih => exact .cons (ih h')

theorem Chained.split {s : Session σ × List Token}
    (h : Chained shell session (before ++ s :: later) final) :
    Chained shell session before s.1 ∧ Chained shell s.1 (s :: later) final := by
  induction before generalizing session with
  | nil =>
    cases h with
    | cons hrest => exact ⟨.nil, .cons hrest⟩
  | cons first before ih =>
    cases h with
    | cons hrest =>
      obtain ⟨hbefore, hlater⟩ := ih hrest
      exact ⟨.cons hbefore, hlater⟩

theorem Chained.keeps {P : σ → Prop} (h : Chained shell session ran final) (hP : P session.state)
    (hstep : ∀ s ∈ ran, P s.1.state → P (runStatement shell s.1 s.2).session.state) :
    (∀ s ∈ ran, P s.1.state) ∧ P final.state := by
  induction h with
  | nil => exact ⟨by simp, hP⟩
  | cons _ ih =>
    obtain ⟨hfirst, hrest⟩ := List.forall_mem_cons.mp hstep
    obtain ⟨hran, hfinal⟩ := ih (hfirst hP) hrest
    exact ⟨List.forall_mem_cons.mpr ⟨hP, hran⟩, hfinal⟩

theorem chained_reachedFrom (xs : List (Option Text × List Token)) :
    Chained shell session (reachedFrom shell ok session xs)
      (runStatements shell outputs ok session xs).session := by
  induction xs generalizing outputs ok session with
  | nil => exact .nil
  | cons s rest ih =>
    rw [runStatements_cons, reachedFrom]
    cases lacking? s rest with
    | some operator => exact .nil
    | none =>
      dsimp only
      cases hp : passesOver ok s with
      | true =>
        rw [if_pos rfl, if_pos rfl]
        exact ih
      | false =>
        rw [if_neg (by simp), if_neg (by simp)]
        refine .cons ?_
        cases runStatement shell session s.2 with
        | exited session | raised e session => exact .nil
        | done output ok session => exact ih

theorem chained_reached (shell : Shell σ) (session : Session σ) (line : Text) :
    Chained shell session (reached shell session line) (runLine shell session line).session := by
  rw [reached, runLine]
  cases Token.scanStrict line with
  | error fault => exact .nil
  | ok tokens => exact chained_reachedFrom _

def visited (shell : Shell σ) (session : Session σ) : List Text → List (Session σ × List Token)
  | [] => []
  | line :: lines =>
    reached shell session line ++ visited shell (runLine shell session line).session lines

def afterLines (shell : Shell σ) (session : Session σ) (lines : List Text) : Session σ :=
  lines.foldl (fun session line => (runLine shell session line).session) session

theorem chained_visited (shell : Shell σ) (session : Session σ) (lines : List Text) :
    Chained shell session (visited shell session lines) (afterLines shell session lines) := by
  induction lines generalizing session with
  | nil => exact .nil
  | cons line lines ih => exact (chained_reached shell session line).append (ih _)

end CommandShell.Session
