import CommandShell.Layout.Owners
import CommandShell.Proofs.Binding.Supply
import CommandShell.Proofs.Session.Calls

/-!
What a variable reference gives a command. As the one value of a parameter, behind its name or by
place, it gives what the variable stands for when the command is called. In a list and as the value
of a member it gives the name of the variable.
-/

set_option autoImplicit false

namespace CommandShell

def Argument.referenced (vars : Variables) (name : Text) : Datum :=
  (automatic? name).getD (vars.value name)

namespace ValueType

def takesText : ValueType → Bool
  | .text | .any | .mixed => true
  | _ => false

theorem coerceText_of_takesText {type : ValueType} (h : type.takesText = true) (raw : Text) :
    type.coerceText raw = .ok (.text raw) := by
  cases type <;> first | rfl | cases h

mutual

theorem coerce_of_takesText {type : ValueType} (h : type.takesText = true) :
    ∀ d : Datum, type.coerce d = .ok d
  | .text raw => by rw [coerce, coerceText_of_takesText h]
  | .list items => by rw [coerce, coerceAll_of_takesText h items]; rfl
  | .null | .boolean _ | .integer _ | .number _ | .member _ | .script _ | .moment _ | .map _
  | .object _ => by
    rw [coerce]
    all_goals simp

theorem coerceAll_of_takesText {type : ValueType} (h : type.takesText = true) :
    ∀ ds : List Datum, type.coerceAll ds = .ok ds
  | [] => by rw [coerceAll]
  | d :: ds => by rw [coerceAll, coerce_of_takesText h d, coerceAll_of_takesText h ds]; rfl

end

end ValueType

namespace Binding

theorem resolve_valueOf {e : Element} {t : Token} (he : e.parts = [t]) (ht : t.kind = .reference)
    (vars : Variables) : (valueOf e).resolve vars = Argument.referenced vars t.value := by
  simp only [valueOf, he, ht, if_true, Argument.referenced]
  cases Argument.automatic? t.value <;> rfl

end Binding

namespace Session

open Binding

variable {σ : Type}

/-- A statement that calls a command gives each parameter that a reference supplies the value of the
variable, converted to the type of the parameter. -/
theorem runStatement_reference {a : Action σ} {c : Command (σ × List Call)}
    (ha : c.action = a.recorded) {shell : Shell (σ × List Call)} {line : Text}
    {tokens : List Token} (hline : Token.scanStrict line = .ok tokens)
    {s : Option Text × List Token} (hs : s ∈ Statement.split none tokens) {command : Element}
    {rest : List Element} (hi : Invokes s.2 (command :: rest))
    (hv : Verb.of? command.text = none) (hc : shell.registry.get? command.text = some c)
    (hn : (c.parameters.map fun p => Text.lower p.name).Nodup)
    (hkeywords : (c.parameters.map (·.keyword)).Nodup) (session : Session (σ × List Call))
    (hclean : Clean c (some shell.types) (command :: rest) session.vars)
    (hself : ¬ Passes c (some shell.types) (command :: rest) "self".toList) :
    ∃ call : Call, (runStatement shell session s.2).session = { session with
        state := ((a.run call session.state.1).2, session.state.2 ++ [call]) } ∧
      ∀ p e t, Supplies c.parameters (some shell.types) (command :: rest) p e → e.parts = [t] →
        t.kind = .reference →
        (∀ m ∈ members c.parameters (some shell.types) (command :: rest),
          m.name ≠ p.name ∧ m.name ≠ p.keyword) →
        ∃ d, p.type.coerce (Argument.referenced session.vars t.value) = .ok d ∧
          call.keywords.get? p.keyword = some d ∧
          (p.type.takesText = true → d = Argument.referenced session.vars t.value) := by
  have htokens : tokens = Token.scan line := @Token.eq_scan_of_read true line tokens hline
  have hnames : ∀ e ∈ command :: rest, e.isParameter = true → e.text ≠ [] := by
    intro e he
    rw [← hi.elements] at he
    exact Element.text_ne_nil_of_mem (fun t ht => htokens ▸ Statement.mem_of_mem_split hs t ht) he
  obtain ⟨⟨keywords, hk⟩, haccepted⟩ := (clean_iff hn hnames).mp hclean
  have hfree : keywords.has "self".toList = false := by
    rw [← Bool.not_eq_true, Entries.has_eq_true, mem_keys_keywords hn hnames hk]
    exact hself
  refine ⟨⟨keywords, sources c (bind (command :: rest) (-1) c.parameters (some shell.types))
    session.vars session.assigned⟩, ?_, fun p e t hsupplies hparts hreference hm => ?_⟩
  · rw [runStatement_eq_invoke hi hv hc,
      invoke_session hk (haccepted.imp_left bind_attached_eq_nil.mpr) hfree, ha]
    rfl
  · obtain ⟨d, hd, hget⟩ := keywords_get? hn hkeywords hnames hk hsupplies.mem_writes hm
    rw [resolve_valueOf hparts hreference] at hd
    refine ⟨d, hd, hget, fun htakes => ?_⟩
    rw [ValueType.coerce_of_takesText htakes] at hd
    exact (Except.ok.inj hd).symm

theorem runStatement_reference_go :
    let shell := gridShell [passedAs "size".toList]
    let session : Session (Unit × List Call) := start [("x".toList, .text "v".toList)] ((), [])
    let tokens := (Token.scan "Go -S $x".toList).dropLast
    ∃ call : Call, (runStatement shell session tokens).session.state.2 = [call] ∧
      call.keywords.get? "size".toList = some (.text "v".toList) := by
  intro shell session tokens
  let t : Token := ⟨.reference, "$x".toList, "x".toList, 6, none, false⟩
  let name : Element := .parameter ⟨.parameter, "-S".toList, "S".toList, 3, none, true⟩ 5
  let command : Element := .value [⟨.bare, "Go".toList, "Go".toList, 0, none, true⟩] 0 2
  let c := goWith [passedAs "size".toList]
  have helements : Element.ofTokens tokens = [command, name, .value [t] 6 8] := by decide +kernel
  have hn : (c.parameters.map fun p => Text.lower p.name).Nodup := List.pairwise_singleton _ _
  have hnames : ∀ e ∈ [command, name, .value [t] 6 8], e.isParameter = true → e.text ≠ [] := by
    decide +kernel
  have hkeywords : (match (bind [command, name, .value [t] 6 8] (-1) c.parameters
      (some shell.types)).keywords c session.vars with
      | .ok keywords => decide (keywords.map (·.1) = ["size".toList])
      | .error _ => false) = true := by decide +kernel
  have hmembers : (members c.parameters (some shell.types)
      [command, name, .value [t] 6 8]).length = 0 := by decide +kernel
  split at hkeywords
  · rename_i keywords hk
    have hkeys := of_decide_eq_true hkeywords
    have hclean := (clean_iff hn hnames).mpr ⟨⟨keywords, hk⟩, .inr rfl⟩
    have hself := mt (mem_keys_keywords hn hnames hk "self".toList).mpr (by rw [hkeys]; decide)
    obtain ⟨call, hsession, hgiven⟩ := runStatement_reference rfl
      (Token.scanStrict_eq_ok (by decide +kernel : Token.fault? "Go -S $x".toList = none))
      (by decide +kernel : (none, tokens) ∈ Statement.split none (Token.scan "Go -S $x".toList))
      ⟨by decide +kernel, by decide +kernel, helements⟩ (by decide +kernel)
      (Registry.get?_register rfl : shell.registry.get? command.text = some c) hn
      (List.pairwise_singleton _ _) session hclean hself
    have hsupplies : Supplies c.parameters (some shell.types) [command, name, .value [t] 6 8]
        (passedAs "size".toList) (.value [t] 6 8) :=
      .named .refl rfl rfl rfl rfl rfl
    obtain ⟨d, -, hget, hvalue⟩ := hgiven _ _ t hsupplies rfl rfl fun m hm => by
      rw [List.length_eq_zero_iff.mp hmembers] at hm
      cases hm
    refine ⟨call, by rw [hsession]; rfl, ?_⟩
    rw [hvalue rfl] at hget
    exact hget
  · cases hkeywords

/-- In a list, and as the value of a member, a reference is the name of its variable. -/
theorem runLine_reference_name :
    let shell : Shell (Unit × List Call) :=
      ⟨(gridShell [passedAs "size".toList]).registry, Layout.types⟩
    let session : Session (Unit × List Call) := start [("x".toList, .text "v".toList)] ((), [])
    let given (line : String) := (runLine shell session line.toList).session.state.2.map
      fun call => call.keywords.map fun entry => (entry.1, entry.2.print.toOption)
    given "Go -S $x" = [[("size".toList, some "v".toList)]] ∧
      given "Go -S a,$x" = [[("size".toList, some "['a', 'x']".toList)]] ∧
      given "Go -ToolTipService.ToolTip $x" =
        [[("ToolTipService.ToolTip".toList, some "x".toList)]] := by
  decide +kernel

end Session

end CommandShell
