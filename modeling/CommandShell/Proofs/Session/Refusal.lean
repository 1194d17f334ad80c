import CommandShell.Proofs.Session.Ending

/-!
Lines with a fault of syntax. A line that cannot be read runs nothing. An operator that lacks a
command is found only when its turn comes: by then the statements before it have run, and all that
they printed is dropped.
-/

set_option autoImplicit false

namespace CommandShell

namespace Statement

/-- The first operator that lacks a command, with the statements before it. -/
inductive Lacks : List (Option Text × List Token) → List (Option Text × List Token) → Text → Prop
  where
  | here {s : Option Text × List Token} {rest : List (Option Text × List Token)}
      {operator : Text} : lacking? s rest = some operator → Lacks (s :: rest) [] operator
  | later {s : Option Text × List Token} {rest front : List (Option Text × List Token)}
      {operator : Text} : lacking? s rest = none → Lacks rest front operator →
      Lacks (s :: rest) (s :: front) operator

variable {s : Option Text × List Token} {xs rest front : List (Option Text × List Token)}
  {operator : Text}

theorem Lacks.isPrefix (h : Lacks xs front operator) : front <+: xs := by
  induction h with
  | here => exact List.nil_prefix
  | later _ _ ih => exact List.cons_prefix_cons.mpr ⟨rfl, ih⟩

/-- An operator that has its command has it whatever is cut off behind it. -/
theorem lacking?_of_isPrefix (h : lacking? s rest = none) (hfront : front <+: rest) :
    lacking? s front = none := by
  obtain ⟨before, tokens⟩ := s
  cases tokens with
  | cons t tokens => rfl
  | nil =>
    cases before with
    | some operator => exact h
    | none =>
      cases front with
      | nil => rfl
      | cons first front =>
        obtain ⟨later, rfl⟩ := hfront
        exact h

theorem forall_not_lacks_cons : (∀ front operator, ¬ Lacks (s :: rest) front operator) ↔
    lacking? s rest = none ∧ ∀ front operator, ¬ Lacks rest front operator := by
  constructor
  · intro h
    exact ⟨Option.eq_none_iff_forall_not_mem.mpr fun operator hs => h [] operator (.here hs),
      fun front operator hlacks => by
        cases hs : lacking? s rest with
        | none => exact h (s :: front) operator (.later hs hlacks)
        | some first => exact h [] first (.here hs)⟩
  · rintro ⟨hs, hrest⟩ front operator (hlacking | ⟨-, hlacks⟩)
    · rw [hs] at hlacking
      cases hlacking
    · exact hrest _ operator hlacks

end Statement

namespace Session

open Statement

variable {σ : Type} {shell : Shell σ} {session final : Session σ} {outputs : List Text} {ok : Bool}
  {xs front : List (Option Text × List Token)} {operator : Text}

/-- The message on an operator, in the place of what was printed. -/
def LineResult.refusedFor (operator : Text) : LineResult σ → LineResult σ
  | .printed _ session => .printed (some (LineFault.missingCommand operator).message) session
  | .exited session => .exited session
  | .raised e session => .raised e session

def printedBy (shell : Shell σ) (s : Session σ × List Token) : List Text :=
  match runStatement shell s.1 s.2 with
  | .done output _ _ => output.toList
  | .exited _ | .raised .. => []

theorem runStatements_lacks (h : Lacks xs front operator) :
    runStatements shell outputs ok session xs =
      (runStatements shell outputs ok session front).refusedFor operator := by
  induction h generalizing outputs ok session with
  | here hlacking =>
    rw [runStatements_cons, hlacking]
    rfl
  | @later s rest front operator hlacking hrest ih =>
    rw [runStatements_cons, runStatements_cons, hlacking,
      lacking?_of_isPrefix hlacking hrest.isPrefix]
    dsimp only
    split
    · exact ih
    · split
      · rfl
      · rfl
      · exact ih

theorem reachedFrom_lacks (h : Lacks xs front operator) :
    reachedFrom shell ok session xs = reachedFrom shell ok session front := by
  induction h generalizing ok session with
  | here hlacking => simp only [reachedFrom, hlacking]
  | @later s rest front operator hlacking hrest ih =>
    rw [reachedFrom, reachedFrom, hlacking, lacking?_of_isPrefix hlacking hrest.isPrefix]
    dsimp only
    split
    · exact ih
    · refine congrArg (_ :: ·) ?_
      split
      · rfl
      · rfl
      · exact ih

theorem reachedFrom_eq_nil (h : Lacks xs front operator) :
    reachedFrom shell ok session front = [] ↔ ∀ s ∈ front, passesOver ok s = true := by
  induction h with
  | here => simp [reachedFrom]
  | @later s rest front operator hlacking hrest ih =>
    rw [reachedFrom, lacking?_of_isPrefix hlacking hrest.isPrefix]
    dsimp only
    cases hp : passesOver ok s with
    | true => simpa [hp] using ih
    | false => simp [hp]

theorem runStatements_passed (h : Lacks xs front operator)
    (hp : ∀ s ∈ front, passesOver ok s = true) :
    runStatements shell outputs ok session front = .printed (joined outputs) session := by
  induction h with
  | here => rfl
  | @later s rest front operator hlacking hrest ih =>
    obtain ⟨hs, hfront⟩ := List.forall_mem_cons.mp hp
    rw [runStatements_cons, lacking?_of_isPrefix hlacking hrest.isPrefix, if_pos hs]
    exact ih hfront

theorem runStatements_printed (h : ∀ front operator, ¬ Lacks xs front operator)
    {output : Option Text} (hrun : runStatements shell outputs ok session xs =
      .printed output final) :
    output = joined (outputs ++ (reachedFrom shell ok session xs).flatMap (printedBy shell)) := by
  induction xs generalizing outputs ok session with
  | nil =>
    obtain ⟨rfl, -⟩ := LineResult.printed.inj hrun
    simp [reachedFrom]
  | cons s rest ih =>
    obtain ⟨hlacking, hrest⟩ := forall_not_lacks_cons.mp h
    rw [runStatements_cons, hlacking] at hrun
    rw [reachedFrom, hlacking]
    dsimp only at hrun ⊢
    split
    · rename_i hp
      rw [if_pos hp] at hrun
      exact ih hrest hrun
    · rename_i hp
      rw [if_neg hp] at hrun
      rw [List.flatMap_cons, printedBy]
      dsimp only
      cases hstatement : runStatement shell session s.2 with
      | exited session | raised e session =>
        rw [hstatement] at hrun
        cases hrun
      | done printed ok session =>
        rw [hstatement] at hrun
        dsimp only
        rw [← List.append_assoc]
        exact ih hrest hrun

/-- A line that cannot be read has no effect. In a line with an operator that lacks a command the
statements before the operator run as they would alone, but for what they print, and the others do
not; so it has no effect where all of those are passed over. Any other line prints what the
statements print that it reaches. -/
theorem runLine_refused (shell : Shell σ) (session : Session σ) (line : Text) :
    (∀ fault, Token.scanStrict line = .error fault →
      runLine shell session line =
        .printed (some (LineFault.syntaxFault fault).message) session ∧
      reached shell session line = []) ∧
    ∀ tokens, Token.scanStrict line = .ok tokens →
      (∀ front operator, Lacks (Statement.split none tokens) front operator →
        runLine shell session line =
          (runStatements shell [] true session front).refusedFor operator ∧
        reached shell session line = reachedFrom shell true session front ∧
        (reached shell session line = [] ↔ ∀ s ∈ front, passesOver true s = true) ∧
        (reached shell session line = [] → runLine shell session line =
          .printed (some (LineFault.missingCommand operator).message) session)) ∧
      ((∀ front operator, ¬ Lacks (Statement.split none tokens) front operator) →
        ∀ output final, runLine shell session line = .printed output final →
          output = joined ((reached shell session line).flatMap (printedBy shell))) := by
  rw [runLine, reached]
  constructor
  · intro fault hline
    rw [hline]
    exact ⟨rfl, rfl⟩
  · intro tokens hline
    rw [hline]
    refine ⟨fun front operator hlacks => ?_, fun hcomplete output final hrun => ?_⟩
    · have hreached : reachedFrom shell true session (Statement.split none tokens) = [] ↔
          ∀ s ∈ front, passesOver true s = true := by
        rw [reachedFrom_lacks hlacks]
        exact reachedFrom_eq_nil hlacks
      refine ⟨runStatements_lacks hlacks, reachedFrom_lacks hlacks, hreached, fun hnone => ?_⟩
      dsimp only
      rw [runStatements_lacks hlacks, runStatements_passed hlacks (hreached.mp hnone)]
      rfl
    · exact runStatements_printed hcomplete hrun

theorem runLine_refused_go :
    let shell := goShell "size".toList
    let session : Session (Unit × List Call) := start [] ((), [])
    let message := (LineFault.missingCommand "&&".toList).message
    (Token.fault? "Go -S 'x".toList).isSome = true ∧
      reached shell session "Go -S 'x".toList = [] ∧
      runLine shell session "; || Go &&".toList = .printed (some message) session := by
  intro shell session message
  have hread := runLine_refused shell session "Go -S 'x".toList
  have hlacks := runLine_refused shell session "; || Go &&".toList
  have hfault : (Token.fault? "Go -S 'x".toList).isSome = true := by decide +kernel
  obtain ⟨fault, hline⟩ := Option.isSome_iff_exists.mp hfault
  refine ⟨hfault, (hread.1 fault (by rw [Token.scanStrict, hline])).2, ?_⟩
  let front : List (Option Text × List Token) := [(none, []), (some [';'], []),
    (some "||".toList, [⟨.bare, "Go".toList, "Go".toList, 5, none, true⟩])]
  have hsplit : Statement.split none (Token.scan "; || Go &&".toList) =
      front ++ [(some "&&".toList, [])] := by decide +kernel
  have hlack : Lacks (Statement.split none (Token.scan "; || Go &&".toList)) front "&&".toList := by
    rw [hsplit]
    exact .later (by decide) (.later (by decide) (.later (by decide) (.here (by decide))))
  obtain ⟨-, -, hreached, heffect⟩ :=
    (hlacks.2 _ (Token.scanStrict_eq_ok (by decide +kernel))).1 front "&&".toList hlack
  exact heffect (hreached.mpr (by decide +kernel))

/-- The statements before an operator that lacks a command call commands and set variables, and what
they print is lost. -/
theorem runLine_refused_late :
    let shell := goShell "size".toList
    let session : Session (Unit × List Call) := start [] ((), [])
    let line := "$n = 1; help; Go -S x &&".toList
    (match runLine shell session line with
      | .printed output final =>
        decide (output = some (LineFault.missingCommand "&&".toList).message ∧
          final.vars.map (fun v => (v.1, v.2.print.toOption)) = [(['n'], some ['1'])] ∧
          final.state.2.length = 1)
      | _ => false) = true ∧
      (reached shell session line).flatMap (printedBy shell) = [Help.overview shell.registry] := by
  decide +kernel

end Session

end CommandShell
