import CommandShell.Proofs.Binding.Shift
import CommandShell.Proofs.Session.Invocation
import CommandShell.Proofs.Statement.Append
import Mathlib.Data.List.Chain

/-!
Chains of statements. A line that a separator divides runs as its two parts would, one after the
other.
-/

set_option autoImplicit false

namespace CommandShell

namespace Statement

/-- No conditional separator lacks a command, behind it or before it. -/
structure Complete (statements : List (Option Text × List Token)) : Prop where
  behind : ∀ s ∈ statements, isConditional s.1 = true → s.2 ≠ []
  before : statements.IsChain fun first second => isConditional second.1 = true → first.2 ≠ []

variable {s : Option Text × List Token} {xs ys : List (Option Text × List Token)}

theorem Complete.tail (h : Complete (s :: xs)) : Complete xs :=
  ⟨fun t ht => h.behind t (List.mem_cons_of_mem s ht), h.before.tail⟩

theorem Complete.left (h : Complete (xs ++ ys)) : Complete xs :=
  ⟨fun s hs => h.behind s (List.mem_append_left ys hs), h.before.left_of_append⟩

theorem Complete.head_eq (h : Complete (s :: xs)) (hs : s.2 = []) :
    ∀ next ∈ xs.head?, isConditional next.1 = false := fun _ hnext =>
  Bool.eq_false_iff.mpr fun hc => h.before.rel_head? hnext hc hs

theorem Complete.append (hx : Complete xs) (hy : Complete ys)
    (h : ∀ s ∈ ys.head?, isConditional s.1 = false) : Complete (xs ++ ys) := by
  refine ⟨fun s hs => (List.mem_append.mp hs).elim (hx.behind s) (hy.behind s), ?_⟩
  exact hx.before.append hy.before fun _ _ t ht hc => absurd hc (Bool.eq_false_iff.mp (h t ht))

theorem Complete.replace_head {before operator : Option Text} {tokens : List Token}
    (h : Complete ((before, tokens) :: xs)) (ho : isConditional operator = false) :
    Complete ((operator, tokens) :: xs) := by
  refine ⟨List.forall_mem_cons.mpr ⟨fun hc => ?_, h.tail.behind⟩, h.tail.before.cons ?_⟩
  · exact absurd hc (Bool.eq_false_iff.mp ho)
  · exact fun _ hnext => h.before.rel_head? hnext

theorem Complete.behind_separator {ts : List Token} {before operator : Option Text}
    (h : Complete (split before ts)) (ho : isConditional operator = false) :
    Complete (split operator ts) := by
  obtain ⟨tokens, later, hts⟩ := exists_split ts
  rw [hts] at h ⊢
  exact h.replace_head ho

theorem Complete.shift (n : Nat) (h : Complete xs) :
    Complete (xs.map fun s => (s.1, s.2.map (Token.shift n))) := by
  refine ⟨List.forall_mem_map.mpr fun s hs hc => ?_, (List.isChain_map _).mpr ?_⟩
  · rw [Ne, List.map_eq_nil_iff]
    exact h.behind s hs hc
  · refine h.before.imp fun s t hst hc => ?_
    rw [Ne, List.map_eq_nil_iff]
    exact hst hc

end Statement

namespace Session

open Statement

variable {σ : Type} {shell : Shell σ} {outputs : List Text} {ok : Bool} {session : Session σ}
  {s : Option Text × List Token} {xs ys rest : List (Option Text × List Token)}

theorem joined_left (xs ys : List Text) :
    joined ((joined xs).toList ++ ys) = joined (xs ++ ys) := by
  cases xs with
  | nil => rfl
  | cons x xs => simp [joined, Text.join_cons]

theorem joined_right (xs ys : List Text) :
    joined (xs ++ (joined ys).toList) = joined (xs ++ ys) := by
  cases ys with
  | nil => rfl
  | cons y ys => cases xs <;> simp [joined, Text.join_cons]

namespace LineResult

def after (output : Option Text) : LineResult σ → LineResult σ
  | .printed later session => .printed (joined (output.toList ++ later.toList)) session
  | .exited session => .exited session
  | .raised e session => .raised e session

/-- One line after the other, what both print joined by a line end. -/
def followedBy (first : LineResult σ) (next : Session σ → LineResult σ) : LineResult σ :=
  match first with
  | .printed output session => (next session).after output
  | .exited session => .exited session
  | .raised e session => .raised e session

theorem after_after (xs ys : List Text) (result : LineResult σ) :
    (result.after (joined ys)).after (joined xs) = result.after (joined (xs ++ ys)) := by
  cases result with
  | exited | raised => rfl
  | printed later session =>
    simp only [after, joined_left, joined_right, List.append_assoc]

end LineResult

def passesOver (ok : Bool) (s : Option Text × List Token) : Bool :=
  s.2.isEmpty || (s.1 = some ['&', '&'] && !ok || s.1 = some ['|', '|'] && ok)

theorem runStatements_pass (h : Complete (s :: rest)) (hp : passesOver ok s = true) :
    runStatements shell outputs ok session (s :: rest) =
      runStatements shell outputs ok session rest := by
  obtain ⟨operator, tokens⟩ := s
  rw [runStatements.eq_def]
  dsimp only
  cases tokens with
  | cons t tokens =>
    simp only [passesOver, List.isEmpty_cons, Bool.false_or] at hp
    rw [if_neg (by simp), if_pos hp]
  | nil =>
    rw [List.isEmpty_nil, if_pos rfl]
    have hoperator : isConditional operator = false :=
      Bool.eq_false_iff.mpr fun hc => h.behind _ (List.mem_cons_self ..) hc rfl
    have hnext := h.head_eq rfl
    cases operator with
    | some operator =>
      dsimp only
      rw [if_neg (by simp [hoperator])]
    | none =>
      cases rest with
      | nil => rfl
      | cons t rest =>
        obtain ⟨following, _⟩ := t
        cases following with
        | none => rfl
        | some following =>
          dsimp only
          rw [if_neg (by simp [hnext _ rfl])]

theorem runStatements_run (hp : passesOver ok s = false) :
    runStatements shell outputs ok session (s :: rest) =
      match runStatement shell session s.2 with
      | .exited session => .exited session
      | .raised e session => .raised e session
      | .done output ok session =>
        runStatements shell (outputs ++ output.toList) ok session rest := by
  obtain ⟨operator, tokens⟩ := s
  obtain ⟨hempty, hcondition⟩ := Bool.or_eq_false_iff.mp hp
  rw [runStatements.eq_def]
  exact (if_neg (by simpa using hempty)).trans (if_neg (by simpa using hcondition))

theorem runStatements_outputs (h : Complete xs) :
    runStatements shell outputs ok session xs =
      (runStatements shell [] ok session xs).after (joined outputs) := by
  induction xs generalizing outputs ok session with
  | nil =>
    have hall : joined outputs = joined ((joined outputs).toList ++ []) := by
      rw [joined_left, List.append_nil]
    exact congrArg (LineResult.printed · session) hall
  | cons s rest ih =>
    cases hp : passesOver ok s with
    | true => rw [runStatements_pass h hp, runStatements_pass h hp, ih h.tail]
    | false =>
      rw [runStatements_run hp, runStatements_run hp]
      cases runStatement shell session s.2 with
      | exited | raised => rfl
      | done output ok session =>
        dsimp only
        rw [ih h.tail, @ih ([] ++ output.toList) _ _ h.tail, LineResult.after_after]
        rfl

theorem passesOver_eq (hs : isConditional s.1 = false) (ok : Bool) :
    passesOver ok s = s.2.isEmpty := by
  obtain ⟨hand, hor⟩ := Bool.or_eq_false_iff.mp hs
  simp only [passesOver, beq_eq_false_iff_ne.mp hand, beq_eq_false_iff_ne.mp hor, decide_false,
    Bool.false_and, Bool.or_false]

/-- How the last statement ended does not count before a separator that is not conditional. -/
theorem runStatements_ok (h : Complete xs) (hx : ∀ s ∈ xs.head?, isConditional s.1 = false)
    (ok' : Bool) :
    runStatements shell outputs ok session xs = runStatements shell outputs ok' session xs := by
  induction xs with
  | nil => rfl
  | cons s rest ih =>
    have hs := passesOver_eq (hx s rfl)
    cases hempty : s.2.isEmpty with
    | true =>
      rw [runStatements_pass h ((hs ok).trans hempty), runStatements_pass h ((hs ok').trans hempty)]
      exact ih h.tail (h.head_eq (List.isEmpty_iff.mp hempty))
    | false =>
      rw [runStatements_run ((hs ok).trans hempty), runStatements_run ((hs ok').trans hempty)]

theorem runStatements_behind {ts : List Token} {before operator : Option Text}
    (h : Complete (split before ts)) (hb : isConditional before = false)
    (ho : isConditional operator = false) :
    runStatements shell outputs ok session (split operator ts) =
      runStatements shell outputs ok session (split before ts) := by
  have hbehind := h.behind_separator ho
  obtain ⟨tokens, later, hts⟩ := exists_split ts
  rw [hts] at h hbehind ⊢
  rw [hts before]
  have hb := @passesOver_eq (before, tokens) hb ok
  have ho := @passesOver_eq (operator, tokens) ho ok
  cases tokens with
  | nil => rw [runStatements_pass h hb, runStatements_pass hbehind ho]
  | cons t tokens => rw [runStatements_run hb, runStatements_run ho]

theorem runStatements_append (h : Complete (xs ++ ys))
    (hy : ∀ s ∈ ys.head?, isConditional s.1 = false) :
    runStatements shell outputs ok session (xs ++ ys) =
      (runStatements shell outputs ok session xs).followedBy fun session =>
        runStatements shell [] true session ys := by
  induction xs generalizing outputs ok session with
  | nil =>
    rw [List.nil_append] at h ⊢
    rw [runStatements_outputs h, runStatements_ok h hy true]
    rfl
  | cons s rest ih =>
    cases hp : passesOver ok s with
    | true =>
      rw [runStatements_pass (Complete.left h) hp, ← ih h.tail]
      exact runStatements_pass h hp
    | false =>
      rw [List.cons_append, runStatements_run hp, runStatements_run hp]
      cases runStatement shell session s.2 with
      | exited | raised => rfl
      | done output ok session => exact ih h.tail

section Shift

variable (n : Nat)

theorem keywordsFrom_shift (c : Command σ) (b : Binding) (vars : Variables)
    (keywords : Entries Text Datum) (named : List (Text × Argument)) :
    (b.shift n).keywordsFrom c vars keywords named = b.keywordsFrom c vars keywords named := by
  have hattached : (b.shift n).attached = b.attached := rfl
  induction named generalizing keywords with
  | nil => rfl
  | cons entry named ih => simp only [Binding.keywordsFrom, hattached, ih]

theorem invoke_shift (session : Session σ) (c : Command σ) (b : Binding) :
    session.invoke c (b.shift n) = session.invoke c b := by
  have hkeywords : (b.shift n).keywords c session.vars = b.keywords c session.vars := by
    simp only [Binding.keywords, keywordsFrom_shift]
    simp only [Binding.shift, List.isEmpty_map, List.map_map]
    rfl
  rw [invoke, invoke, Binding.outcome_shift]
  cases hb : b.outcome with
  | error raised => rfl
  | ok b' =>
    obtain rfl := Binding.eq_of_outcome hb
    simp only [Except.map, hkeywords]
    rfl

theorem dispatch_shift (command : Element) (elements : List Element) :
    dispatch shell session (command.shift n) (elements.map (Element.shift n)) =
      dispatch shell session command elements := by
  simp only [dispatch, Element.text_shift]
  cases Verb.of? command.text with
  | some verb =>
    cases verb with
    | leave => rfl
    | clear => rfl
    | help =>
      rw [List.getElem?_map]
      cases elements[1]? with
      | none => rfl
      | some target => simp only [Option.map_some, Element.text_shift]
  | none =>
    cases shell.registry.get? command.text with
    | none => rfl
    | some c =>
      have hbind := @Binding.bind_shift n elements (-1) (-1) rfl c.parameters (some shell.types)
      dsimp only
      rw [hbind, invoke_shift]

theorem unsupported_shift (tokens : List Token) :
    unsupported (tokens.map (Token.shift n)) = unsupported tokens := by
  have hboundary : isBoundary ∘ Token.shift n = isBoundary := rfl
  rw [unsupported, unsupported, List.filter_map, hboundary, List.map_map]
  rfl

theorem assign_shift (name : Text) (tokens : List Token) :
    session.assign name (tokens.map (Token.shift n)) = session.assign name tokens := by
  have hvalues : ((tokens.map (Token.shift n)).filter fun t => !t.isOperator [',']).map literal =
      (tokens.filter fun t => !t.isOperator [',']).map literal := by
    rw [List.filter_map, List.map_map]
    rfl
  rw [assign, assign, hvalues]

theorem runStatement_shift (tokens : List Token) :
    runStatement shell session (tokens.map (Token.shift n)) =
      runStatement shell session tokens := by
  simp only [runStatement, unsupported_shift, Element.ofTokens_shift]
  cases tokens with
  | nil => rfl
  | cons t rest =>
    generalize Element.ofTokens (t :: rest) = elements
    have hrun (command : Element) (others : List Element) :
        dispatch shell session (command.shift n)
          (command.shift n :: others.map (Element.shift n)) =
            dispatch shell session command (command :: others) :=
      dispatch_shift n command (command :: others)
    cases elements <;> cases rest <;>
      simp only [List.map_cons, List.map_nil, Token.shift_kind, Token.shift_value, assign_shift,
        hrun] <;> rfl

theorem runStatements_shift (xs : List (Option Text × List Token)) :
    runStatements shell outputs ok session (xs.map fun s => (s.1, s.2.map (Token.shift n))) =
      runStatements shell outputs ok session xs := by
  induction xs generalizing outputs ok session with
  | nil => rfl
  | cons s rest ih =>
    obtain ⟨operator, tokens⟩ := s
    rw [List.map_cons, runStatements.eq_def, runStatements.eq_def]
    dsimp only
    simp only [ih, runStatement_shift, List.isEmpty_map]
    cases rest with
    | nil => rfl
    | cons t rest =>
      obtain ⟨following, _⟩ := t
      cases following <;> rfl

end Shift

end Session

end CommandShell
