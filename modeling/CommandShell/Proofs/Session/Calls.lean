import CommandShell.Proofs.Binding.Keywords
import CommandShell.Proofs.Element.Parts
import CommandShell.Proofs.Session.Ending

/-!
When a command is called. A statement that names a command calls it on a clean binding, with the
keywords of what was bound, and otherwise calls nothing and says why, unless a conversion throws
what nothing catches.
-/

set_option autoImplicit false

namespace CommandShell

open Binding

theorem LineFault.startsWith_message (fault : LineFault) :
    Text.startsWith fault.message marker = true :=
  List.isPrefixOf_iff_prefix.mpr (List.prefix_append _ _)

namespace Session

variable {σ : Type}

/-- A refusal is an output that begins with the error marker, and changes nothing. -/
def Refuses (ran : Ran σ) (session : Session σ) : Prop :=
  ∃ output, ran = .done (some output) false session ∧
    Text.startsWith output LineFault.marker = true

theorem refuses_refused (session : Session σ) (fault : LineFault) :
    Refuses (session.refused fault) session :=
  ⟨_, rfl, LineFault.startsWith_message _⟩

/-- What the conversions of a call throw and nothing catches: of the value of a member, or of the
value of a parameter when the failure cannot be told. -/
inductive Escapes (c : Command σ) (types : Option TypeRegistry) (raised : Raised) : Prop where
  | member {type : ValueType} : type ∈ Owner.memberTypes types →
      type.Throws Owner.isNoted raised → Escapes c types raised
  | parameter {p : Parameter} {left : Raised} : p ∈ c.parameters →
      p.type.Throws FaultKind.isMisfit left → left.told = .error raised → Escapes c types raised

theorem not_escapes {c : Command σ} {types : Option TypeRegistry}
    (hmembers : ∀ type ∈ Owner.memberTypes types, type.OnlyMisfits)
    (hparameters : ∀ p ∈ c.parameters, p.type.OnlyMisfits) (raised : Raised) :
    ¬ Escapes c types raised := by
  rintro (⟨htype, hthrows⟩ | ⟨hp, hthrows, -⟩)
  · exact (hmembers _ htype).not_throws (fun _ h => Bool.or_eq_true_iff.mpr (.inl h)) _ hthrows
  · exact (hparameters _ hp).not_throws (fun _ h => h) _ hthrows

theorem refuses_or_escapes {c : Command σ} {types : Option TypeRegistry} {elements : List Element}
    {session : Session σ}
    (h : ¬ ∃ keywords,
      (bind elements (-1) c.parameters types).keywords c session.vars = .ok keywords ∧
        ((bind elements (-1) c.parameters types).attached = [] ∨ c.action.takesAny = true) ∧
        keywords.has "self".toList = false) :
    let ran := session.invoke c (bind elements (-1) c.parameters types)
    Refuses ran session ∨ ∃ raised, ran = .raised raised session ∧ Escapes c types raised := by
  intro ran
  rcases invoke_rejected h with ⟨raised, hb, hran⟩ | ⟨fault, -, hk, hran⟩ | ⟨fault, hran⟩
  · obtain ⟨type, htype, hthrows⟩ := throws_of_bind hb
    exact .inr ⟨raised, hran, .member htype hthrows⟩
  · rcases caught_cases session c fault.raised with ⟨told, hcaught⟩ | ⟨raised, htold, hcaught⟩
    · left
      rw [show ran = session.refused told from hran.trans hcaught]
      exact refuses_refused session told
    · obtain ⟨p, hp, left, hthrows, hleft⟩ := throws_of_keywords hk htold
      exact .inr ⟨raised, hran.trans hcaught, .parameter hp hthrows hleft⟩
  · left
    rw [show ran = session.misused c fault from hran]
    exact refuses_refused session _

/-- On the elements of a statement a command is called just when they bind clean and `self` is not
passed; the call has the keywords that are passed. -/
theorem invoke_call {a : Action σ} {c : Command (σ × List Call)} (ha : c.action = a.recorded)
    {types : Option TypeRegistry} {elements : List Element}
    (hn : (c.parameters.map fun p => Text.lower p.name).Nodup)
    (hnames : ∀ e ∈ elements, e.isParameter = true → e.text ≠ [])
    (session : Session (σ × List Call)) :
    let ran := session.invoke c (bind elements (-1) c.parameters types)
    (Clean c types elements session.vars ∧ ¬ Passes c types elements "self".toList →
      ∃ call : Call, ran.session = { session with
          state := ((a.run call session.state.1).2, session.state.2 ++ [call]) } ∧
        (call.keywords.map (·.1)).Nodup ∧
        ∀ key, key ∈ call.keywords.map (·.1) ↔ Passes c types elements key) ∧
    (¬ (Clean c types elements session.vars ∧ ¬ Passes c types elements "self".toList) →
      Refuses ran session ∨ ∃ raised, ran = .raised raised session ∧ Escapes c types raised) := by
  intro ran
  have hclean : Clean c types elements session.vars ↔ _ := clean_iff hn hnames
  constructor
  · rintro ⟨h, hself⟩
    obtain ⟨⟨keywords, hk⟩, haccepted⟩ := hclean.mp h
    have hkeys := mem_keys_keywords hn hnames hk
    have hfree : keywords.has "self".toList = false := by
      rw [← Bool.not_eq_true, Entries.has_eq_true, hkeys]
      exact hself
    refine ⟨⟨keywords, sources c (bind elements (-1) c.parameters types) session.vars
      session.assigned⟩, ?_, nodup_keys_keywords hk,
      hkeys⟩
    rw [invoke_session hk (haccepted.imp_left bind_attached_eq_nil.mpr) hfree, ha]
    rfl
  · intro h
    refine refuses_or_escapes ?_
    rintro ⟨keywords, hk, haccepted, hfree⟩
    refine h ⟨hclean.mpr ⟨⟨keywords, hk⟩, haccepted.imp_left bind_attached_eq_nil.mp⟩,
      fun hself => ?_⟩
    rw [← mem_keys_keywords hn hnames hk, ← Entries.has_eq_true, hfree] at hself
    cases hself

variable {shell : Shell σ} {session : Session σ} {tokens : List Token} {command : Element}
  {rest : List Element} {c : Command σ}

theorem runStatement_eq_invoke (hi : Invokes tokens (command :: rest))
    (hv : Verb.of? command.text = none) (hc : shell.registry.get? command.text = some c) :
    runStatement shell session tokens =
      session.invoke c (bind (command :: rest) (-1) c.parameters (some shell.types)) := by
  simp only [runStatement_of_invokes hi, dispatch, hv, hc]

/-- A statement of a line that names a command calls it once when the binding is clean, with the
keywords of all that was bound and no others. Otherwise nothing is called, and the statement is
refused unless a conversion throws what nothing catches. -/
theorem runStatement_call {a : Action σ} {c : Command (σ × List Call)} (ha : c.action = a.recorded)
    {shell : Shell (σ × List Call)} {line : Text} {tokens : List Token}
    (hline : Token.scanStrict line = .ok tokens) {s : Option Text × List Token}
    (hs : s ∈ Statement.split none tokens) (hi : Invokes s.2 (command :: rest))
    (hv : Verb.of? command.text = none) (hc : shell.registry.get? command.text = some c)
    (hn : (c.parameters.map fun p => Text.lower p.name).Nodup)
    (session : Session (σ × List Call)) :
    let ran := runStatement shell session s.2
    let clean := Clean c (some shell.types) (command :: rest) session.vars
    let passes := Passes c (some shell.types) (command :: rest)
    (clean ∧ ¬ passes "self".toList →
      ∃ call : Call, ran.session = { session with
          state := ((a.run call session.state.1).2, session.state.2 ++ [call]) } ∧
        (call.keywords.map (·.1)).Nodup ∧ ∀ key, key ∈ call.keywords.map (·.1) ↔ passes key) ∧
    (¬ (clean ∧ ¬ passes "self".toList) → Refuses ran session ∨
      ∃ raised, ran = .raised raised session ∧ Escapes c (some shell.types) raised) := by
  have htokens : tokens = Token.scan line := @Token.eq_scan_of_read true line tokens hline
  have hnames : ∀ e ∈ command :: rest, e.isParameter = true → e.text ≠ [] := by
    intro e he
    rw [← hi.elements] at he
    exact Element.text_ne_nil_of_mem (fun t ht => htokens ▸ Statement.mem_of_mem_split hs t ht) he
  rw [runStatement_eq_invoke hi hv hc]
  exact invoke_call ha hn hnames session

def goWith (ps : List Parameter) : Command (Unit × List Call) := { go [] with parameters := ps }

def gridShell (ps : List Parameter) : Shell (Unit × List Call) :=
  ⟨(Registry.empty.register (goWith ps)).1, (TypeRegistry.empty.register
    (OwnerType.make "Grid".toList [] [("Row".toList, .integer)] []) []).1⟩

theorem runStatement_call_grid :
    let shell := gridShell [passedAs "size".toList]
    let session : Session (Unit × List Call) := start [] ((), [])
    let statement (line : Text) := (Token.scan line).dropLast
    (∃ call : Call,
      (runStatement shell session (statement "Go -S 'a b' -Grid.Row 2".toList)).session.state.2 =
        [call] ∧
      ∀ key, key ∈ call.keywords.map (·.1) ↔ key = "size".toList ∨ key = "Grid.Row".toList) ∧
    Refuses (runStatement shell session (statement "Go -Grid.Row x".toList)) session := by
  intro shell session statement
  have hc : shell.registry.get? "Go".toList = some (goWith [passedAs "size".toList]) :=
    Registry.get?_register rfl
  have hn : ((goWith [passedAs "size".toList]).parameters.map fun p => Text.lower p.name).Nodup :=
    List.pairwise_singleton _ _
  have hcalls (line : Text) (hline : Token.fault? line = none)
      (hs : (none, statement line) ∈ Statement.split none (Token.scan line))
      (hassigns : assigns (statement line) = false) (hsupported : unsupported (statement line) = [])
      (hne : Element.ofTokens (statement line) ≠ [])
      (hname : ((Element.ofTokens (statement line)).head hne).text = "Go".toList) :=
    runStatement_call rfl (Token.scanStrict_eq_ok hline) hs
      ⟨hassigns, hsupported, (List.cons_head_tail hne).symm⟩ (by rw [hname]; decide +kernel)
      (hname ▸ hc) hn session
  obtain ⟨hcall, -⟩ := hcalls "Go -S 'a b' -Grid.Row 2".toList (by decide +kernel)
    (by decide +kernel) (by decide +kernel) (by decide +kernel) (by decide +kernel)
    (by decide +kernel)
  obtain ⟨-, hrefused⟩ := hcalls "Go -Grid.Row x".toList (by decide +kernel) (by decide +kernel)
    (by decide +kernel) (by decide +kernel) (by decide +kernel) (by decide +kernel)
  simp only [List.cons_head_tail] at hcall hrefused
  constructor
  · have hnames : ∀ e ∈ Element.ofTokens (statement "Go -S 'a b' -Grid.Row 2".toList),
        e.isParameter = true → e.text ≠ [] := by decide +kernel
    have hkeywords : (match (bind (Element.ofTokens (statement "Go -S 'a b' -Grid.Row 2".toList))
        (-1) (goWith [passedAs "size".toList]).parameters (some shell.types)).keywords
          (goWith [passedAs "size".toList]) session.vars with
        | .ok keywords => decide (keywords.map (·.1) = ["size".toList, "Grid.Row".toList])
        | .error _ => false) = true := by decide +kernel
    split at hkeywords
    · rename_i keywords hk
      have hkeys := of_decide_eq_true hkeywords
      have hpasses := mem_keys_keywords hn hnames hk
      have hclean := (clean_iff hn hnames).mpr ⟨⟨keywords, hk⟩, .inr rfl⟩
      have hfree := mt (hpasses "self".toList).mpr (by rw [hkeys]; decide)
      obtain ⟨call, hsession, -, hkey⟩ := hcall ⟨hclean, hfree⟩
      refine ⟨call, by rw [hsession]; rfl, fun key => ?_⟩
      rw [hkey, ← hpasses, hkeys]
      simp
    · cases hkeywords
  · have hintegers : ∀ type ∈ Owner.memberTypes (some shell.types), type.OnlyMisfits := fun _ h =>
      List.mem_singleton.mp h ▸ ValueType.onlyMisfits_of nofun
    have htexts : ∀ p ∈ (goWith [passedAs "size".toList]).parameters, p.type.OnlyMisfits :=
      fun _ h => List.mem_singleton.mp h ▸ ValueType.onlyMisfits_of nofun
    refine (hrefused fun h => ?_).resolve_right fun ⟨raised, _, hescapes⟩ =>
      not_escapes hintegers htexts raised hescapes
    have hnoted := h.1.noted
    revert hnoted
    decide +kernel

/-- Of a bound parameter whose name is also the key of a member, the keyword is not passed. -/
theorem runLine_point :
    let p : Parameter := ⟨"Grid.Row".toList, [], none, false, .text, "row".toList, []⟩
    let line := "Go -Gr x -Grid.Row 2".toList
    let b := bind (Element.ofTokens (Token.scan line)) (-1) [p] (some (gridShell [p]).types)
    b.errors = [] ∧ b.positional = [] ∧ b.available = [] ∧ p.keyword = "row".toList ∧
      (runLine (gridShell [p]) (start [] ((), [])) line).session.state.2.map
        (fun call => call.keywords.map (·.1)) = [["Grid.Row".toList]] := by
  decide +kernel

end Session

end CommandShell
