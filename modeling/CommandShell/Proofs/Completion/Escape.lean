import CommandShell.Proofs.Binding.Escape
import CommandShell.Proofs.Completion.Offer
import CommandShell.Proofs.Completion.Span

/-!
When a completion fails. It does on what a conversion to the type of an attached member throws, on a
failure of a provider that cannot be told, and on a value of a provider that cannot be printed.
Whatever else there is on the line, it comes to candidates for a part of the line around the cursor.
-/

set_option autoImplicit false

namespace CommandShell

namespace Binding

variable {types : Option TypeRegistry} {raised : Raised} {d : Diagnostic}

theorem throws_of_bindInvocation {σ : Type} {registry : Registry σ} {elements : List Element}
    {cursor : Int}
    (hd : d ∈ (bindInvocation elements cursor (some registry.describe) types).errors)
    (hraised : d.raised? = some raised) :
    ∃ type ∈ Owner.memberTypes types, type.Throws Owner.isNoted raised := by
  unfold bindInvocation at hd
  split at hd
  · exact throws_of_noted hd hraised
  · rename_i command hcommand
    dsimp only at hd
    rcases List.mem_append.mp hd with hd | hd
    · rw [Registry.describe] at hd
      cases hc : registry.get? command.text with
      | some c =>
        rw [hc] at hd
        cases hd
      | none =>
        rw [hc] at hd
        obtain rfl := List.mem_singleton.mp hd
        cases hraised
    · exact throws_of_noted hd hraised

end Binding

namespace Completion

open Binding

variable {σ : Type} {context : Context σ} {raised : Raised} {d : Diagnostic}

def Quiet (c : Completion) : Prop := ∀ d ∈ c.diagnostics, d.raised? = none

theorem nothing_quiet (start length : Nat) : (nothing start length).Quiet := nofun

theorem exists_of_mem_offering {c : Completion} {ranked : Except Raised (List Candidate)}
    (hd : d ∈ (c.offering ranked).diagnostics) (hraised : d.raised? = some raised) :
    d ∈ c.diagnostics ∨ ranked = .error raised := by
  cases ranked with
  | ok candidates => exact .inl hd
  | error e =>
    refine (List.mem_append.mp hd).imp_right fun hd => ?_
    obtain rfl := List.mem_singleton.mp hd
    exact congrArg _ (Option.some.inj hraised)

theorem Quiet.offering {c : Completion} (h : c.Quiet) {ranked : Except Raised (List Candidate)}
    (hranked : ∃ candidates, ranked = .ok candidates) : (c.offering ranked).Quiet := by
  obtain ⟨candidates, rfl⟩ := hranked
  exact h

theorem commandNames_quiet (context : Context σ) (line : Text) (e : Element) (cursor : Nat) :
    (commandNames context line e cursor).Quiet := by
  refine (nothing_quiet _ _).offering (Ranking.rank_texts fun entry hentry => ?_)
  rcases List.mem_append.mp hentry with hentry | hentry
  all_goals
    obtain ⟨name, -, rfl⟩ := List.mem_map.mp hentry
    exact ⟨name, rfl⟩

theorem helpTargets_quiet (context : Context σ) (line : Text) (e : Element) (cursor : Nat) :
    (helpTargets context line e cursor).Quiet := by
  refine (nothing_quiet _ _).offering (Ranking.rank_texts fun entry hentry => ?_)
  obtain ⟨name, -, rfl⟩ := List.mem_map.mp hentry
  exact ⟨name, rfl⟩

theorem parameterNames_quiet (context : Context σ) (line : Text) (e : Element) (cursor : Nat)
    (command : Option (Command σ)) (b : Binding) :
    (parameterNames context line e cursor command b).Quiet := by
  cases command with
  | none => exact nothing_quiet _ _
  | some c =>
    refine (nothing_quiet _ _).offering (Ranking.rank_texts fun entry hentry => ?_)
    obtain ⟨p, -, rfl⟩ := List.mem_map.mp hentry
    exact ⟨_, rfl⟩

theorem memberNames_quiet (context : Context σ) (line : Text) (parameter adjacent : Element)
    (length cursor : Nat) : (memberNames context line parameter adjacent length cursor).Quiet := by
  fun_cases memberNames context line parameter adjacent length cursor with
  | case1 | case2 => exact nothing_quiet _ _
  | case3 =>
    refine (nothing_quiet _ _).offering (Ranking.rank_texts fun entry hentry => ?_)
    obtain ⟨⟨key, members⟩, -, hentry⟩ := List.mem_flatMap.mp hentry
    obtain ⟨m, -, rfl⟩ := List.mem_map.mp hentry
    exact ⟨_, rfl⟩

/-- The values that a type implies are typed as they are or are members, which have names. -/
theorem withDomain_quiet (context : Context σ) (span : ValueSpan) (type : ValueType)
    {c : Completion} (h : c.Quiet) : (withDomain context span type c).Quiet := by
  refine h.offering ?_
  cases hranked : Ranking.rank (type.domain.1.map .plain) span.word none .parameterValue
      type.domain.2 (some context.limit) with
  | ok candidates => exact ⟨candidates, rfl⟩
  | error e =>
    obtain ⟨entry, hentry, hfails⟩ := Ranking.exists_of_rank_eq_error hranked
    obtain ⟨v, hv, rfl⟩ := List.mem_map.mp hentry
    have hvalue : (∃ m, v = .member m) ∨ ∃ s, v = .text s := by
      cases type with
      | enumeration e =>
        obtain ⟨m, -, rfl⟩ := List.mem_map.mp hv
        exact .inl ⟨m, rfl⟩
      | boolean =>
        obtain ⟨s, -, rfl⟩ := List.mem_map.mp hv
        exact .inr ⟨_, rfl⟩
      | _ => cases hv
    obtain ⟨m, rfl⟩ | ⟨s, rfl⟩ := hvalue
    all_goals exact hfails.elim nofun nofun

/-- What escapes from the completion of a line for which a provider was asked, if one was. -/
inductive Escapes (context : Context σ) (asked : Option PoolRequest) (raised : Raised) : Prop where
  /-- the type of a member throws -/
  | member {type : ValueType} : type ∈ Owner.memberTypes (some context.types) →
      type.Throws Owner.isNoted raised → Escapes context asked raised
  /-- the provider fails, and that cannot be told -/
  | failure {c : Command σ} {name text : Text} {provider : Provider σ} {request : PoolRequest}
      {entries : List PoolEntry} {thrown : Raised} :
      context.registry.get? name = some c → c.completer? text = some provider →
      asked = some request → provider request context.state = .finite entries (.failed thrown) →
      thrown.told = .error raised → Escapes context asked raised
  /-- the provider yields a value that cannot be printed -/
  | entry {c : Command σ} {name text : Text} {provider : Provider σ} {request : PoolRequest}
      {entry : PoolEntry} :
      context.registry.get? name = some c → c.completer? text = some provider →
      asked = some request →
      entry ∈ (Pool.get provider request context.state context.timeout none).1 →
      entry.display = .error raised ∨ entry.insertion = .error raised →
      Escapes context asked raised

theorem waited_raised? (parameter : Text) (timeout : Timeout) :
    ∀ d ∈ (Pool.waited parameter timeout).2, d.raised? = none := by
  unfold Pool.waited
  split <;> exact fun d hd => List.mem_singleton.mp hd ▸ rfl

theorem told_of_ended {entries : List PoolEntry} {parameter : Text} {timeout : Timeout}
    {cancelled : Bool} {ending : Ending}
    (hd : d ∈ (Pool.ended entries parameter timeout cancelled ending).2)
    (hraised : d.raised? = some raised) :
    ∃ thrown, ending = .failed thrown ∧ thrown.told = .error raised := by
  cases ending with
  | finished => cases hd
  | failed thrown =>
    obtain rfl := List.mem_singleton.mp hd
    have htell : Diagnostic.Cause.tell (.providerFailure parameter) thrown = .escaped raised :=
      Diagnostic.raised?_eq_some.mp hraised
    have hcause : ∀ fault, Diagnostic.Cause.providerFailure parameter fault ≠ .escaped raised :=
      nofun
    exact ⟨thrown, rfl, (Diagnostic.Cause.tell_eq_escaped hcause).mp htell⟩
  | never =>
    rw [Pool.ended] at hd
    split at hd
    · cases hd
    · cases hraised.symm.trans (waited_raised? _ _ d hd)

/-- A pool comes with nothing that escapes, but for a failure that cannot be told. -/
theorem failed_of_collect {parameter : Text} {timeout : Timeout} {cancelled : Bool}
    {supply : Supply}
    (hd : d ∈ (Pool.collect parameter timeout none cancelled supply).2)
    (hraised : d.raised? = some raised) :
    ∃ entries thrown, supply = .finite entries (.failed thrown) ∧ thrown.told = .error raised := by
  have hended {entries : List PoolEntry} {given : Bool} {ending : Ending}
      (hd : d ∈ (Pool.ended entries parameter timeout given ending).2) :
      ∃ all thrown, Supply.finite entries ending = .finite all (.failed thrown) ∧
        thrown.told = .error raised := by
    obtain ⟨thrown, rfl, htold⟩ := told_of_ended hd hraised
    exact ⟨entries, thrown, rfl, htold⟩
  cases supply with
  | endless entry =>
    rw [Pool.collect] at hd
    split at hd
    · cases hd
    · cases hraised.symm.trans (waited_raised? _ _ d hd)
  | finite entries ending =>
    cases entries with
    | nil => exact hended hd
    | cons entry entries =>
      cases cancelled with
      | true => cases hd
      | false => exact hended hd

theorem Quiet.escapes {c : Completion} (h : c.Quiet) (hraised : d.raised? = some raised)
    (hd : d ∈ c.diagnostics) : Escapes context c.request raised := by
  cases hraised.symm.trans (h d hd)

theorem values_escapes {command : Option (Command σ)} {b : Binding} {span : ValueSpan}
    (hcommand : ∀ c ∈ command, ∃ name, context.registry.get? name = some c)
    (hd : d ∈ (values context command b span).diagnostics) (hraised : d.raised? = some raised) :
    Escapes context (values context command b span).request raised := by
  have hnothing := nothing_quiet span.start span.length
  revert hcommand hd
  fun_cases values context command b span with
  | case1 | case4 => exact fun _ => (withDomain_quiet context span _ hnothing).escapes hraised
  | case2 => exact fun _ => (hnothing.offering (Ranking.rank_texts (by simp))).escapes hraised
  | case3 | case6 => exact fun _ => hnothing.escapes hraised
  | case5 result key hkey c hattached p hp provider hprovider asked pool noted hpool =>
    intro hcommand hd
    obtain ⟨name, hname⟩ := hcommand c rfl
    obtain ⟨hfound, hsupplied⟩ := Prod.mk.inj hpool
    rw [withPool, offering_request]
    rcases exists_of_mem_offering hd hraised with hd | hranked
    · obtain ⟨entries, thrown, hfailed, htold⟩ := failed_of_collect (hsupplied ▸ hd) hraised
      exact .failure hname hprovider rfl hfailed htold
    · obtain ⟨entry, hentry, hfails⟩ := Ranking.exists_of_rank_eq_error hranked
      exact .entry hname hprovider rfl (hfound ▸ hentry) hfails

theorem argument_escapes {line : Text} {cursor : Nat} {elements : List Element}
    {command previous e : Element}
    (hd : d ∈ (argument context line cursor elements command previous e).diagnostics)
    (hraised : d.raised? = some raised) :
    Escapes context (argument context line cursor elements command previous e).request raised := by
  have hcommand : ∀ c ∈ context.registry.get? command.text,
      ∃ name, context.registry.get? name = some c := fun c hc => ⟨command.text, hc⟩
  rcases List.mem_append.mp hd with hd | hd
  · obtain ⟨type, htype, hthrows⟩ := throws_of_bindInvocation hd hraised
    exact .member htype hthrows
  · revert hd
    unfold argument
    dsimp only
    split
    · split
      · exact (memberNames_quiet context _ _ _ _ _).escapes hraised
      · exact fun hd => values_escapes hcommand hd hraised
    · split
      · split
        · exact (parameterNames_quiet context _ _ _ _ _).escapes hraised
        · exact fun hd => values_escapes hcommand hd hraised
      · exact fun hd => values_escapes hcommand hd hraised

theorem completeAt_escapes {line : Text} {cursor : Nat}
    (hd : d ∈ (completeAt context line cursor).diagnostics) (hraised : d.raised? = some raised) :
    Escapes context (completeAt context line cursor).request raised := by
  revert hd
  unfold completeAt
  dsimp only
  split
  · split
    · split
      · exact (commandNames_quiet context _ _ _).escapes hraised
      · split
        · exact (helpTargets_quiet context _ _ _).escapes hraised
        · exact fun hd => argument_escapes hd hraised
    · exact (nothing_quiet _ _).escapes hraised
  · exact (nothing_quiet _ _).escapes hraised

/-- Wherever the cursor is put, a completion is about a part of the line around it. It is made
unless something escapes from it. -/
theorem complete_spans (context : Context σ) (line : Text) (cursor : Int) :
    let c := complete context line cursor
    Spans c (min cursor.toNat line.length) line.length ∧
      (c.outcome = .ok c ∨
        ∃ raised, c.outcome = .error raised ∧ Escapes context c.request raised) := by
  intro c
  refine ⟨spans_complete context line cursor, ?_⟩
  cases hc : c.outcome with
  | ok made => exact .inl (congrArg Except.ok (Diagnostic.eq_of_outcome hc).symm)
  | error raised =>
    obtain ⟨d, hd, hraised⟩ := Diagnostic.exists_of_outcome_eq_error hc
    exact .inr ⟨raised, rfl, completeAt_escapes hd hraised⟩

def silent : Raised := .mute .runtime (.fault ⟨.value, "silent".toList⟩)

/-- A command with a provider that yields a value that cannot be printed, and one that fails without
a text. -/
def yielding : Command (Unit × List Call) :=
  { placing with
    parameters := [⟨['P'], [], none, false, .text, [], []⟩, ⟨['Q'], [], none, false, .text, [], []⟩]
    completers := [(['P'], fun _ _ => .finite [Ranking.unprintable] .finished),
      (['Q'], fun _ _ => .finite [] (.failed silent))] }

def yieldingContext : Context (Unit × List Call) :=
  ⟨(Registry.empty.register yielding).1, sized, [], ((), []), .whole 1, 50⟩

/-- Each of the three stops a completion. -/
theorem complete_stopped :
    let escaped (line : String) : Option Raised :=
      match (complete yieldingContext line.toList line.length).outcome with
      | .error raised => some raised
      | .ok _ => none
    escaped "Cmd -Grid.Width abc" = some invalidOperation ∧
      escaped "Cmd -Q " = some (.fault ⟨.value, "silent".toList⟩) ∧
      escaped "Cmd -P " = some Ranking.uncallable := by
  decide +kernel

end Completion

end CommandShell
