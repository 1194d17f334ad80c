import CommandShell.Proofs.Session.Refusal

/-!
Which lines are refused for an operator without a command. An operator lacks one where nothing
stands behind it, up to the next separator, or nothing before it. The second is noticed at the start
of a line and behind another such operator; behind a `;` or a line end it is not, and the line runs
as if that separator were not there.
-/

set_option autoImplicit false

namespace CommandShell

namespace Statement

def joins (t : Token) : Bool := isSeparator t && isConditional (some t.value)

/-- Nothing stands between the last separator of these tokens, or their start, and their end. -/
def Opens (before : List Token) : Prop := ∀ t ∈ before.getLast?, isSeparator t = true

/-- Nothing stands between the start of these tokens and their first separator, or their end. -/
def Closes (after : List Token) : Prop := ∀ t ∈ after.head?, isSeparator t = true

/-- An operator of a line lacks a command and is noticed. -/
def Noticed (ts : List Token) (operator : Text) : Prop :=
  ∃ before t after, ts = before ++ t :: after ∧ joins t = true ∧ t.value = operator ∧
    (Closes after ∨ ∀ u ∈ before.getLast?, joins u = true)

variable {ts us before after : List Token} {t : Token} {operator : Text}
  {s : Option Text × List Token} {xs rest front : List (Option Text × List Token)}

theorem joins_iff : joins t = true ↔ isSeparator t = true ∧ isConditional (some t.value) = true :=
  Bool.and_eq_true_iff

theorem value_of_not_joins (ht : isSeparator t = true) (hj : joins t = false) :
    t.value = [';'] ∨ t.value = ['\n'] := by
  obtain ⟨-, hvalue⟩ := Bool.and_eq_true_iff.mp ht
  have hseparator : t.value = [';'] ∨ t.value = ['\n'] ∨ t.value = ['&', '&'] ∨
      t.value = ['|', '|'] := by simpa [separators] using hvalue
  have hconditional : isConditional (some t.value) = false := by simpa [joins, ht] using hj
  rcases hseparator with h | h | h | h
  · exact .inl h
  · exact .inr h
  · rw [h] at hconditional
    cases hconditional
  · rw [h] at hconditional
    cases hconditional

theorem exists_of_lacks (h : Lacks xs front operator) :
    ∃ ys s rest, xs = ys ++ s :: rest ∧ lacking? s rest = some operator := by
  induction h with
  | here h => exact ⟨[], _, _, rfl, h⟩
  | @later s _ _ _ _ _ ih =>
    obtain ⟨ys, s', rest', rfl, h⟩ := ih
    exact ⟨s :: ys, s', rest', rfl, h⟩

theorem exists_lacks (h : lacking? s rest = some operator) (ys : List (Option Text × List Token)) :
    ∃ front operator, Lacks (ys ++ s :: rest) front operator := by
  induction ys with
  | nil => exact ⟨[], operator, .here h⟩
  | cons y ys ih =>
    obtain ⟨front, found, hlacks⟩ := ih
    cases hy : lacking? y (ys ++ s :: rest) with
    | none => exact ⟨y :: front, found, .later hy hlacks⟩
    | some first => exact ⟨[], first, .here hy⟩

theorem nil_of_lacking (h : lacking? s rest = some operator) : s.2 = [] := by
  rw [lacking?] at h
  split at h
  · cases h
  · rename_i hempty
    simpa using hempty

theorem exists_of_split_nil {first : Option Text} (hend : ∀ t ∈ ts, t.kind ≠ .endOfInput)
    (h : split first ts = s :: rest) (hs : s.2 = []) :
    (ts = [] ∧ rest = []) ∨
      ∃ t after, ts = t :: after ∧ isSeparator t = true ∧ rest = split (some t.value) after := by
  cases ts with
  | nil => exact .inl ⟨rfl, (List.cons.inj h).2.symm⟩
  | cons t after =>
    by_cases ht : isSeparator t = true
    · rw [split_separator ht] at h
      exact .inr ⟨t, after, rfl, ht, (List.cons.inj h).2.symm⟩
    · obtain ⟨tokens, later, hafter⟩ := exists_split after
      rw [split_token (hend t List.mem_cons_self) ht (hafter first)] at h
      rw [← (List.cons.inj h).1] at hs
      cases hs

theorem exists_of_split_append {first : Option Text} (hend : ∀ t ∈ ts, t.kind ≠ .endOfInput)
    {ys : List (Option Text × List Token)} (h : split first ts = ys ++ s :: rest) :
    (ys = [] ∧ s.1 = first) ∨ ∃ before t after, ts = before ++ t :: after ∧ isSeparator t = true ∧
      s.1 = some t.value ∧ split (some t.value) after = s :: rest := by
  induction ts generalizing first ys with
  | nil =>
    cases ys with
    | nil => exact .inl ⟨rfl, by rw [← (List.cons.inj h).1]⟩
    | cons y ys => simp [split] at h
  | cons t ts ih =>
    have hrest := fun u hu => hend u (List.mem_cons_of_mem t hu)
    cases ys with
    | nil =>
      obtain ⟨tokens, later, hall⟩ := exists_split (t :: ts)
      rw [hall] at h
      exact .inl ⟨rfl, by rw [← (List.cons.inj h).1]⟩
    | cons y ys =>
      by_cases ht : isSeparator t = true
      · rw [split_separator ht] at h
        rcases ih hrest (List.cons.inj h).2 with ⟨rfl, hs⟩ | ⟨before, u, after, rfl, hu⟩
        · exact .inr ⟨[], t, ts, rfl, ht, hs, (List.cons.inj h).2⟩
        · exact .inr ⟨t :: before, u, after, rfl, hu⟩
      · obtain ⟨tokens, later, hts⟩ := exists_split ts
        rw [split_token (hend t List.mem_cons_self) ht (hts first), List.cons_append] at h
        have hsame : split first ts = ((first, tokens) :: ys) ++ s :: rest := by
          rw [hts, List.cons_append, (List.cons.inj h).2]
        rcases ih hrest hsame with ⟨hnil, -⟩ | ⟨before, u, after, rfl, hu⟩
        · cases hnil
        · exact .inr ⟨t :: before, u, after, rfl, hu⟩

theorem lacking?_behind (operator : Text) (rest : List (Option Text × List Token)) :
    lacking? (some operator, []) rest =
      if isConditional (some operator) then some operator else none := rfl

theorem lacking?_start (operator : Text) (tokens : List Token)
    (rest : List (Option Text × List Token)) :
    lacking? (none, []) ((some operator, tokens) :: rest) =
      if isConditional (some operator) then some operator else none := by
  simp [lacking?, Option.filter]

/-- Of the statements of a line one is found to lack a command just when an operator of the line
is. -/
theorem noticed_of_lacks (hend : ∀ t ∈ ts, t.kind ≠ .endOfInput)
    (h : Lacks (split none ts) front operator) : Noticed ts operator := by
  obtain ⟨ys, ⟨first, tokens⟩, rest, hsplit, hlacking⟩ := exists_of_lacks h
  obtain rfl : tokens = [] := nil_of_lacking hlacking
  rcases exists_of_split_append hend hsplit with
    ⟨rfl, rfl⟩ | ⟨before, t, after, rfl, ht, rfl, hafter⟩
  · rcases exists_of_split_nil hend hsplit rfl with ⟨-, rfl⟩ | ⟨t, after, rfl, ht, rfl⟩
    · cases hlacking
    · obtain ⟨tokens, later, hafter⟩ := exists_split after
      rw [hafter, lacking?_start, Option.ite_none_right_eq_some] at hlacking
      exact ⟨[], t, after, rfl, joins_iff.mpr ⟨ht, hlacking.1⟩, Option.some.inj hlacking.2,
        .inr (by simp)⟩
  · rw [lacking?_behind, Option.ite_none_right_eq_some] at hlacking
    refine ⟨before, t, after, rfl, joins_iff.mpr ⟨ht, hlacking.1⟩, Option.some.inj hlacking.2,
      .inl ?_⟩
    have hclosed := exists_of_split_nil
      (fun u hu => hend u (List.mem_append_right _ (List.mem_cons_of_mem t hu))) hafter rfl
    rcases hclosed with ⟨rfl, -⟩ | ⟨u, after, rfl, hu, -⟩
    · simp [Closes]
    · simpa [Closes] using hu

theorem exists_lacks_of_closes (hend : ∀ t ∈ before, t.kind ≠ .endOfInput)
    (hj : joins t = true) (h : Closes after) :
    ∃ front operator, Lacks (split none (before ++ t :: after)) front operator := by
  obtain ⟨ht, hconditional⟩ := joins_iff.mp hj
  have hempty : ∃ rest, split (some t.value) after = (some t.value, []) :: rest := by
    cases after with
    | nil => exact ⟨[], rfl⟩
    | cons u after => exact ⟨split (some u.value) after, split_separator (h u rfl) _ after⟩
  obtain ⟨rest, hrest⟩ := hempty
  rw [split_append hend ht, hrest]
  exact exists_lacks (by rw [lacking?_behind, if_pos hconditional]) _

theorem exists_lacks_of_noticed (hend : ∀ t ∈ ts, t.kind ≠ .endOfInput) (h : Noticed ts operator) :
    ∃ front operator, Lacks (split none ts) front operator := by
  obtain ⟨before, t, after, rfl, hj, rfl, hclosed | hbefore⟩ := h
  · exact exists_lacks_of_closes (fun u hu => hend u (List.mem_append_left _ hu)) hj hclosed
  · obtain ⟨ht, hconditional⟩ := joins_iff.mp hj
    rcases List.eq_nil_or_concat before with rfl | ⟨before, u, rfl⟩
    · obtain ⟨tokens, later, hafter⟩ := exists_split after
      have hstart : lacking? (none, []) (split (some t.value) after) = some t.value := by
        rw [hafter, lacking?_start, if_pos hconditional]
      rw [split_append (by simp) ht]
      exact exists_lacks hstart []
    · have hu : joins u = true := hbefore u (by simp)
      rw [List.concat_eq_append, List.append_assoc, List.singleton_append] at hend ⊢
      refine exists_lacks_of_closes (fun v hv => hend v (List.mem_append_left _ hv)) hu ?_
      simpa [Closes] using ht

/-- An operator without a command before it or behind it is noticed, unless nothing but a semicolon
or a line end stands before it. -/
theorem noticed_of_bare (hj : joins t = true) (h : Opens before ∨ Closes after) :
    Noticed (before ++ t :: after) t.value ∨
      ¬ Closes after ∧ ∃ u ∈ before.getLast?, u.value = [';'] ∨ u.value = ['\n'] := by
  by_cases hclosed : Closes after
  · exact .inl ⟨before, t, after, rfl, hj, rfl, .inl hclosed⟩
  · by_cases hbefore : ∀ u ∈ before.getLast?, joins u = true
    · exact .inl ⟨before, t, after, rfl, hj, rfl, .inr hbefore⟩
    · simp only [not_forall] at hbefore
      obtain ⟨u, hu, hnot⟩ := hbefore
      exact .inr ⟨hclosed, u, hu,
        value_of_not_joins (h.resolve_right hclosed u hu) (Bool.eq_false_iff.mpr hnot)⟩

end Statement

namespace Session

open Statement

variable {σ : Type} {shell : Shell σ} {session : Session σ} {outputs : List Text} {ok : Bool}
  {xs : List (Option Text × List Token)}

def LineResult.output? : LineResult σ → Option (Option Text)
  | .printed output _ => some output
  | .exited _ | .raised .. => none

/-- Where no statement is found to lack a command, the empty ones do not count. -/
theorem runStatements_filter (h : ∀ front operator, ¬ Lacks xs front operator) :
    runStatements shell outputs ok session xs =
      runStatements shell outputs ok session (xs.filter fun s => !s.2.isEmpty) := by
  induction xs generalizing outputs ok session with
  | nil => rfl
  | cons s rest ih =>
    obtain ⟨hlacking, hrest⟩ := forall_not_lacks_cons.mp h
    rw [runStatements_cons, hlacking, List.filter_cons]
    cases hempty : s.2.isEmpty with
    | true =>
      have hpassed : passesOver ok s = true := by rw [passesOver, hempty, Bool.true_or]
      simp only [hpassed, Bool.not_true, Bool.false_eq_true, if_true, if_false]
      exact ih hrest
    | false =>
      have hcomplete (later : List (Option Text × List Token)) : lacking? s later = none := by
        rw [lacking?, hempty]
        rfl
      simp only [Bool.not_false, if_true]
      rw [runStatements_cons, hcomplete]
      dsimp only
      split
      · exact ih hrest
      · split
        · rfl
        · rfl
        · exact ih hrest

/-- An operator without a command is noticed, but for one that has a command behind it and nothing
but a semicolon or a line end before it. A line with an operator that is noticed is refused for one,
unless it reaches a statement before that which ends the session or raises; any other line runs as
its statements do that are not empty. -/
theorem runLine_lacking (shell : Shell σ) (session : Session σ) {line : Text} {ts : List Token}
    {n : Nat} (hline : Token.scanStrict line = .ok (ts ++ [Token.finish n])) :
    (∀ before t after, ts = before ++ t :: after → joins t = true → Opens before ∨ Closes after →
      Noticed ts t.value ∨
        ¬ Closes after ∧ ∃ u ∈ before.getLast?, u.value = [';'] ∨ u.value = ['\n']) ∧
    (∀ operator, Noticed ts operator →
      (∃ first final, Noticed ts first ∧ runLine shell session line =
        .printed (some (LineFault.missingCommand first).message) final) ∨
      ∃ s ∈ reached shell session line, ∃ final,
        Leaves shell s.1 s.2 final ∧ runLine shell session line = .exited final ∨
          ∃ raised, Raises shell s.1 s.2 raised final ∧
            runLine shell session line = .raised raised final) ∧
    ((∀ operator, ¬ Noticed ts operator) → runLine shell session line =
      runStatements shell [] true session ((split none ts).filter fun s => !s.2.isEmpty)) := by
  have hread : Token.read true line = .ok (ts ++ [Token.finish n]) := hline
  have hend : ∀ t ∈ ts, t.kind ≠ .endOfInput := fun t ht =>
    Token.kind_ne_of_mem_ofText (Token.ofText_of_read hread ▸ ht)
  have hrun : runLine shell session line = runStatements shell [] true session (split none ts) := by
    rw [runLine, hline]
    exact congrArg _ (split_finish none n ts)
  refine ⟨?_, fun operator hnoticed => ?_, fun hnone => ?_⟩
  · rintro before t after rfl hj hbare
    exact noticed_of_bare hj hbare
  · obtain ⟨front, first, hlacks⟩ := exists_lacks_of_noticed hend hnoticed
    have hrefused : runStatements shell [] true session (split none ts) = _ :=
      runStatements_lacks hlacks
    have hreached : reached shell session line =
        reachedFrom shell true session (split none ts) := by
      rw [reached, hline]
      exact congrArg _ (split_finish none n ts)
    rw [hrun, hrefused, hreached]
    cases hfront : runStatements shell [] true session front with
    | printed output final =>
      exact .inl ⟨first, final, noticed_of_lacks hend hlacks, rfl⟩
    | exited final =>
      rw [hfront] at hrefused
      obtain ⟨s, hs, hleaves⟩ := runStatements_eq_exited.mp hrefused
      exact .inr ⟨s, hs, final, .inl ⟨hleaves, rfl⟩⟩
    | raised e final =>
      rw [hfront] at hrefused
      obtain ⟨s, hs, hraises⟩ := runStatements_eq_raised.mp hrefused
      exact .inr ⟨s, hs, final, .inr ⟨e, hraises, rfl⟩⟩
  · rw [hrun]
    exact runStatements_filter fun front operator hlacks =>
      hnone operator (noticed_of_lacks hend hlacks)

theorem runLine_lacking_go :
    let shell := goShell "size".toList
    let session : Session (Unit × List Call) := start [] ((), [])
    let line := "$n = 1\n|| nope; Go -S x && # y".toList
    let ts := Token.ofText line
    Noticed ts "&&".toList ∧ ∃ first final, Noticed ts first ∧
      runLine shell session line =
        .printed (some (LineFault.missingCommand first).message) final := by
  intro shell session line ts
  have hline : Token.scanStrict line = .ok (ts ++ [Token.finish line.length]) :=
    Token.scanStrict_eq_ok (by decide +kernel : Token.fault? line = none)
  obtain ⟨hbare, hrefused, -⟩ := runLine_lacking shell session hline
  have hsplit : ts = ts.take 10 ++ ⟨.operator, "&&".toList, "&&".toList, 24, none, true⟩ :: [] := by
    decide +kernel
  have hnoticed : Noticed ts "&&".toList :=
    (hbare _ _ _ hsplit (by decide +kernel) (.inr (by simp [Closes]))).resolve_right
      fun h => h.1 (by simp [Closes])
  refine ⟨hnoticed, (hrefused _ hnoticed).resolve_right ?_⟩
  have hprinted : (runLine shell session line).output?.isSome = true := by decide +kernel
  rintro ⟨-, -, final, ⟨-, hended⟩ | ⟨raised, -, hended⟩⟩
  all_goals
    rw [hended] at hprinted
    cases hprinted

/-- Behind a semicolon an operator without a command before it is not noticed: the command behind it
is called. -/
theorem runLine_lacking_unnoticed :
    let shell := goShell "size".toList
    let session : Session (Unit × List Call) := start [] ((), [])
    let line := "; && Go -S x".toList
    (∃ before t after, Token.ofText line = before ++ t :: after ∧ joins t = true ∧
        Opens before) ∧
      (runLine shell session line).output? = some none ∧
      (runLine shell session line).session.state.2.length = 1 := by
  intro shell session line
  refine ⟨⟨[⟨.operator, [';'], [';'], 0, none, true⟩],
    ⟨.operator, "&&".toList, "&&".toList, 2, none, true⟩, (Token.ofText line).drop 2,
    by decide +kernel, by decide +kernel, fun t ht => ?_⟩, by decide +kernel, by decide +kernel⟩
  obtain rfl := Option.some.inj ht
  decide +kernel

end Session

end CommandShell
