import CommandShell.Proofs.Entries
import CommandShell.Proofs.Session.Dispatch
import CommandShell.Proofs.Session.Reference
import CommandShell.Proofs.Session.Trace

/-!
What a variable reference sees of the assignments before it. An assignment sets the variable under
the name as it is typed, while a reference that does not find its own spelling takes the first one
in another case. So a name that is assigned in two spellings is two variables.
-/

set_option autoImplicit false

namespace CommandShell

namespace Variables

/-- The spelling under which a name is looked up: its own if it was assigned in that, else the first
in which it was. -/
def spelling? (log : List (Text × Datum)) (name : Text) : Option Text :=
  if name ∈ log.map (·.1) then some name
  else (log.map (·.1)).find? fun other => Text.lower other = Text.lower name

variable {log earlier since : List (Text × Datum)} {name m : Text} {d : Datum}

theorem spelling?_eq_none_iff : spelling? log name = none ↔
    ∀ entry ∈ log, Text.lower entry.1 ≠ Text.lower name := by
  rw [spelling?]
  split
  · rename_i h
    obtain ⟨entry, hin, rfl⟩ := List.mem_map.mp h
    exact ⟨nofun, fun h => absurd rfl (h entry hin)⟩
  · simp

theorem spelling?_mem {spelled : Text} (h : spelling? log name = some spelled) :
    spelled ∈ log.map (·.1) ∧ Text.lower spelled = Text.lower name := by
  rw [spelling?] at h
  split at h
  · rename_i hin
    obtain rfl := Option.some.inj h
    exact ⟨hin, rfl⟩
  · exact ⟨List.mem_of_find?_eq_some h, by simpa using List.find?_some h⟩

theorem value_ofList (log : List (Text × Datum)) (name : Text) :
    value (Entries.ofList log) name =
      ((spelling? log name).bind (Entries.get? log.reverse)).getD .null := by
  rw [value, entry?, Entries.get?_ofList, spelling?]
  by_cases hin : name ∈ log.map (·.1)
  · obtain ⟨d, hd⟩ := Option.isSome_iff_exists.mp
      (Entries.isSome_get?.mpr (by simpa using hin : name ∈ log.reverse.map (·.1)))
    rw [if_pos hin, hd, Option.bind_some, hd]
    rfl
  · rw [if_neg hin, Entries.get?_of_notMem (by simpa using hin)]
    have hfind := Entries.find?_of_key (Entries.ofList log)
      fun other => Text.lower other = Text.lower name
    rw [Entries.find?_keys_ofList, funext (Entries.get?_ofList log)] at hfind
    rw [← hfind]
    cases List.find? _ (Entries.ofList log) <;> rfl

theorem get?_reverse_latest (hsince : ∀ entry ∈ since, entry.1 ≠ m) :
    Entries.get? (earlier ++ (m, d) :: since).reverse m = some d := by
  have hnone : Entries.get? since.reverse m = none := by
    refine Entries.get?_of_notMem fun hm => ?_
    obtain ⟨entry, hin, rfl⟩ := List.mem_map.mp hm
    exact hsince entry (List.mem_reverse.mp hin) rfl
  rw [List.reverse_append, List.reverse_cons, List.append_assoc, Entries.get?_append, hnone,
    Option.none_or, List.singleton_append, Entries.get?_cons, if_pos rfl]

/-- A name that is assigned has the value that was assigned last in the spelling that is looked up.
That is the latest of all when it is the spelling of the latest. -/
theorem value_latest (hlog : log = earlier ++ (m, d) :: since)
    (hm : Text.lower m = Text.lower name)
    (hsince : ∀ entry ∈ since, Text.lower entry.1 ≠ Text.lower name) :
    ∃ spelled older, spelling? log name = some spelled ∧
      Entries.get? log.reverse spelled = some older ∧
      value (Entries.ofList log) name = older ∧ (spelled = m → older = d) := by
  have hin : (m, d) ∈ log := by simp [hlog]
  obtain ⟨spelled, hspelled⟩ := Option.ne_none_iff_exists'.mp
    (mt spelling?_eq_none_iff.mp fun h => h _ hin hm)
  obtain ⟨hkey, -⟩ := spelling?_mem hspelled
  obtain ⟨older, holder⟩ := Option.isSome_iff_exists.mp
    (Entries.isSome_get?.mpr (by simpa using hkey : spelled ∈ log.reverse.map (·.1)))
  refine ⟨spelled, older, hspelled, holder, ?_, ?_⟩
  · rw [value_ofList, hspelled, Option.bind_some, holder]
    rfl
  · rintro rfl
    have hlatest : Entries.get? log.reverse spelled = some d := hlog ▸
      get?_reverse_latest fun entry hentry he => hsince entry hentry (he ▸ hm)
    exact Option.some.inj (holder.symm.trans hlatest)

end Variables

namespace Session

open Statement Binding

variable {σ : Type} {shell : Shell σ} {session : Session σ}

def assignment? (tokens : List Token) : Option (Text × Datum) :=
  if assigns tokens then
    let name := (tokens.head?.map (·.value)).getD []
    match ((tokens.drop 2).filter fun t => !t.isOperator [',']).map literal with
    | [] => none
    | [d] => some (name, d)
    | several => some (name, .list several)
  else none

theorem invoke_vars (session : Session σ) (c : Command σ) (b : Binding) :
    (session.invoke c b).session.vars = session.vars := by
  by_cases h : ∃ keywords, b.keywords c session.vars = .ok keywords ∧
      (b.attached = [] ∨ c.action.takesAny = true) ∧ keywords.has "self".toList = false
  · obtain ⟨keywords, hk, haccepted, hself⟩ := h
    rw [invoke_session hk haccepted hself]
  · rw [session_of_rejected h]

theorem dispatch_vars (command : Element) (elements : List Element) :
    (dispatch shell session command elements).session.vars = session.vars := by
  cases hverb : Verb.of? command.text with
  | some verb =>
    rw [perform_verb verb elements hverb]
    cases verb <;> rfl
  | none =>
    rw [dispatch, hverb]
    dsimp only
    split
    · rfl
    · exact invoke_vars ..

/-- A statement sets the variable that it assigns, and no statement sets another. -/
theorem runStatement_vars (shell : Shell σ) (session : Session σ) (tokens : List Token) :
    (runStatement shell session tokens).session.vars =
      Entries.update session.vars (assignment? tokens).toList := by
  rw [runStatement_eq, assignment?]
  split
  · rw [assign]
    generalize ((tokens.drop 2).filter fun t => !t.isOperator [',']).map literal = values
    cases values with
    | nil => rfl
    | cons d values => cases values <;> rfl
  · split
    · rfl
    · split
      · split
        · rfl
        · exact dispatch_vars _ _
      · rfl

def assignments (ran : List (Session σ × List Token)) : List (Text × Datum) :=
  ran.filterMap fun s => assignment? s.2

/-- What a statement finds is what the assignments before it have left. -/
theorem Chained.vars_eq {before later : List (Session σ × List Token)} {s : Session σ × List Token}
    {after : Session σ} (h : Chained shell session (before ++ s :: later) after) :
    s.1.vars = Entries.update session.vars (assignments before) := by
  induction before generalizing session with
  | nil =>
    cases h with
    | cons _ => rfl
  | cons first before ih =>
    cases h with
    | @cons session _ tokens _ hrest =>
      have hfirst : assignments ((session, tokens) :: before) =
          (assignment? tokens).toList ++ assignments before := by
        rw [assignments, List.filterMap_cons]
        cases assignment? tokens <;> rfl
      rw [ih hrest, runStatement_vars, hfirst, Entries.update_append]

/-- In a run of lines a reference stands for nothing when no assignment before it was of its name in
any case. Otherwise it stands for what was assigned last in the spelling that is looked up: its own
if there was an assignment in that, else the first one. That is the latest assignment when this was
made in that spelling, as it is when there is no other. -/
theorem resolve_assigned (shell : Shell σ) (session : Session σ)
    (hvars : (session.vars.map (·.1)).Nodup) (lines : List Text)
    {before later : List (Session σ × List Token)} {s : Session σ × List Token}
    (hs : visited shell session lines = before ++ s :: later) {e : Element} {t : Token}
    (hparts : e.parts = [t]) (ht : t.kind = .reference)
    (hautomatic : Argument.automatic? t.value = none) :
    let log := session.vars ++ assignments before
    let resolved := (valueOf e).resolve s.1.vars
    ((∀ entry ∈ log, Text.lower entry.1 ≠ Text.lower t.value) → resolved = .null) ∧
      ∀ earlier m d since, log = earlier ++ (m, d) :: since →
        Text.lower m = Text.lower t.value →
        (∀ entry ∈ since, Text.lower entry.1 ≠ Text.lower t.value) →
        (∃ spelled older, Variables.spelling? log t.value = some spelled ∧
          Entries.get? log.reverse spelled = some older ∧ resolved = older ∧
          (spelled = m → older = d)) ∧
        ((∀ entry ∈ log, Text.lower entry.1 = Text.lower t.value → entry.1 = m) →
          resolved = d) := by
  intro log resolved
  have hchained := chained_visited shell session lines
  rw [hs] at hchained
  have hresolved : resolved = Variables.value (Entries.ofList log) t.value := by
    simp only [resolved, log]
    rw [resolve_valueOf hparts ht, Argument.referenced, hautomatic, hchained.vars_eq,
      Entries.update_eq_ofList hvars]
    rfl
  constructor
  · intro hnone
    rw [hresolved, Variables.value_ofList, Variables.spelling?_eq_none_iff.mpr hnone]
    rfl
  · intro earlier m d since hlog hm hsince
    obtain ⟨spelled, older, hspelled, holder, hvalue, hlatest⟩ :=
      Variables.value_latest hlog hm hsince
    rw [hresolved, hvalue]
    refine ⟨⟨spelled, older, hspelled, holder, rfl, hlatest⟩, fun hone => hlatest ?_⟩
    obtain ⟨hin, hlower⟩ := Variables.spelling?_mem hspelled
    obtain ⟨entry, hentry, rfl⟩ := List.mem_map.mp hin
    exact hone entry hentry hlower

theorem resolve_assigned_go :
    let session : Session (Unit × List Call) := start [] ((), [])
    let lines := ["$ab = 1".toList, "$ab = 2".toList, "Go -S $AB".toList]
    let ran := visited (goShell "size".toList) session lines
    let e : Element := .value [⟨.reference, "$AB".toList, "AB".toList, 6, none, false⟩] 6 9
    ∃ s, ran[2]? = some s ∧ e ∈ Element.ofTokens s.2 ∧
      ((valueOf e).resolve s.1.vars).print.toOption = some "2".toList := by
  intro session lines ran e
  have hlength : ran.length = 3 := by decide +kernel
  obtain ⟨first, second, third, hran⟩ := List.length_eq_three.mp hlength
  have helement : (ran[2]?).map (fun s => decide (e ∈ Element.ofTokens s.2)) = some true := by
    decide +kernel
  have hassigned : ran.map (fun s => (assignment? s.2).map fun a => (a.1, a.2.print.toOption)) =
      [some ("ab".toList, some "1".toList), some ("ab".toList, some "2".toList), none] := by
    decide +kernel
  rw [hran] at helement hassigned ⊢
  obtain ⟨hfirst, hsecond, -⟩ : _ ∧ _ ∧ _ := by
    simpa only [List.map_cons, List.map_nil, List.cons.injEq, and_true] using hassigned
  obtain ⟨⟨m, old⟩, hold, hm⟩ := Option.map_eq_some_iff.mp hfirst
  obtain ⟨⟨m', d⟩, hd, hm'⟩ := Option.map_eq_some_iff.mp hsecond
  obtain ⟨rfl, -⟩ := Prod.mk.inj hm
  obtain ⟨rfl, hprint⟩ := Prod.mk.inj hm'
  have hlog : assignments [first, second] = [("ab".toList, old), ("ab".toList, d)] := by
    simp only [assignments, List.filterMap_cons, hold, hd, List.filterMap_nil]
  have hvisited : visited (goShell "size".toList) session lines = [first, second] ++ [third] := hran
  obtain ⟨-, hassigned⟩ := resolve_assigned _ session List.nodup_nil lines hvisited
    (rfl : e.parts = [_]) rfl (by decide +kernel)
  obtain ⟨-, hone⟩ := hassigned [("ab".toList, old)] "ab".toList d [] hlog (by decide +kernel)
    (by simp)
  refine ⟨third, rfl, by simpa using helement, ?_⟩
  rw [hone (by simp [session, start, hlog]), hprint]

/-- A name that is assigned in two spellings is two variables, and a third spelling stands for the
first of them. -/
theorem resolve_assigned_spellings :
    let session : Session (Unit × List Call) := start [] ((), [])
    let ran := visited (goShell "size".toList) session
      ["$ab = 1".toList, "$AB = 2".toList, "Go -S $Ab".toList]
    ran.map (fun s => (assignment? s.2).map fun a => (a.1, a.2.print.toOption)) =
        [some ("ab".toList, some "1".toList), some ("AB".toList, some "2".toList), none] ∧
      (ran[2]?).map (fun s => (Element.ofTokens s.2)[2]?.map fun e =>
        ((valueOf e).resolve s.1.vars).print.toOption) = some (some (some "1".toList)) := by
  decide +kernel

end Session

end CommandShell
