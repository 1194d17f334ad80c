import CommandShell.Proofs.Binding.Member
import CommandShell.Proofs.Binding.Spelling
import CommandShell.Proofs.Session.Reference
import CommandShell.Proofs.Session.State

/-!
A value that is assigned to a variable and passed by reference. An assignment stores what the token
of the value stands for, and a reference stands for its name: so `$y = $x` gives `y` the name of `x`
where the same reference behind the name of a parameter gives what `x` holds.
-/

set_option autoImplicit false

namespace CommandShell

open Sign

/-- A text that the strict reading takes for one value. -/
structure Token.IsValue (w : Text) (t : Token) : Prop where
  read : scanStrict w = .ok [t, finish w.length]
  text : t.text = w
  value : Element.continuesList t = true

theorem Token.IsValue.exists_alone {w : Text} {t : Token} (h : IsValue w t) :
    ∃ c rest, w = c :: rest ∧ isBlank c = false ∧ (c == '#') = false ∧
      t = ofLexeme (0, Lexeme.scan c rest) ∧ (Lexeme.scan c rest).Alone :=
  Token.exists_alone h.read h.text h.value

theorem Token.IsValue.of_scan {w : Text} {t : Token} (hfault : fault? w = none)
    (hscan : scan w = [t, finish w.length]) (htext : t.text = w)
    (hvalue : Element.continuesList t = true) : IsValue w t :=
  ⟨hscan ▸ scanStrict_eq_ok hfault, htext, hvalue⟩

theorem Token.IsValue.isOperand {w : Text} {t : Token} (h : IsValue w t) : t.IsOperand :=
  Element.isOperand_of_continuesList h.value

theorem Lexeme.Alone.scan_reference {c : Char} {rest tail : Text} (h : (scan c rest).Alone)
    (hk : (scan c rest).kind = .reference) (ht : endsWord tail = true) :
    scan c (rest ++ tail) = { scan c rest with rest := tail } := by
  obtain ⟨-, -, hopened, hrest⟩ := h
  have hword := word_kind (c :: rest)
  revert hk hopened hrest
  fun_cases scan c rest with
  | case1 => simp [operator_kind]
  | case2 | case3 => simp [quoted]
  | case6 => simp [parameter_kind]
  | case5 | case7 => rcases hword with h | h <;> simp [h]
  | case4 ho hs hd hdollar r hr =>
    intro _ hopened hrest
    have hclosed : r.closed = true := by
      cases hc : r.closed with
      | true => rfl
      | false => simp [reference, hc] at hopened
    have hraw : r.raw = rest := by
      have hsplit := Reference.scan?_raw_append_rest hr
      rwa [show r.rest = [] from hrest, List.append_nil] at hsplit
    have hreference := Reference.scan?_raw_append hr (by simp [hclosed])
      fun _ => any_head?_of_endsWord (by decide +kernel) ht
    rw [hraw] at hreference
    rw [scan, if_neg ho, if_neg hs, if_neg hd, if_pos hdollar, hreference]
    simp only [reference, hraw]

namespace Session

def assigning (reference value : Text) : Text := reference ++ " = ".toList ++ value

variable {u w : Text} {r t : Token}

theorem scanStrict_assigning (hu : Token.IsValue u r) (hr : r.kind = .reference)
    (hw : Token.IsValue w t) :
    ∃ sign : Token, sign.IsOperand ∧ sign.value = ['='] ∧ Token.scanStrict (assigning u w) =
      .ok ([r, sign, t.shift (u.length + 3)] ++ [Token.finish (assigning u w).length]) := by
  obtain ⟨c, rest, rfl, hb, hc, rfl, halone⟩ := hu.exists_alone
  obtain ⟨d, more, rfl, hd, hd', rfl, hvalue⟩ := hw.exists_alone
  have hplain : Quoting.isPlain "=".toList = true := by decide +kernel
  have hraw : (Lexeme.scan c rest).raw = c :: rest := hu.text
  have hline : assigning (c :: rest) (d :: more) =
      c :: (rest ++ ' ' :: ("=".toList ++ ' ' :: d :: more)) := by
    simp [assigning]
  have hall : Lexeme.scanAll 0 (assigning (c :: rest) (d :: more)) =
      [(0, { Lexeme.scan c rest with rest := ' ' :: ("=".toList ++ ' ' :: d :: more) }),
        ((c :: rest).length + 1, .ofPlain "=".toList (' ' :: d :: more)),
        ((c :: rest).length + 3, Lexeme.scan d more)] := by
    rw [hline, Lexeme.scanAll_cons hb hc, halone.scan_reference hr rfl]
    dsimp only
    rw [hraw, Lexeme.scanAll_blank rfl, Quoting.scanAll_of_isPlain _ hplain rfl,
      Lexeme.scanAll_blank rfl, Lexeme.scanAll_cons hd hd', hvalue.rest, Lexeme.scanAll_nil,
      Nat.zero_add]
    rfl
  have hfault : Token.fault? (assigning (c :: rest) (d :: more)) = none := by
    refine Token.fault?_eq_none ?_
    rw [hall]
    simp only [List.forall_mem_cons]
    exact ⟨halone.opened, rfl, hvalue.opened, by simp⟩
  refine ⟨Token.ofLexeme ((c :: rest).length + 1, .ofPlain "=".toList (' ' :: d :: more)),
    ⟨nofun, nofun⟩, rfl, ?_⟩
  rw [Token.scanStrict_eq_ok hfault, Token.scan, hall]
  simp [Token.ofLexeme, Token.shift]

variable {σ : Type} {shell : Shell σ} {session : Session σ} {c : Command σ} {p : Parameter}

theorem runStatement_assigning {sign : Token} (hr : r.kind = .reference)
    (hsign : sign.value = ['=']) (ht : t.kind ≠ .operator) :
    runStatement shell session [r, sign, t] =
      .done none true (session.put r.value (literal t)) := by
  have hvalues : [t].filter (fun t => !t.isOperator [',']) = [t] := by
    simp [Token.isOperator_eq_false ht]
  simp only [runStatement, hr, hsign, decide_true, Bool.and_self, if_true, assign, hvalues,
    List.map_cons, List.map_nil]

theorem runLine_assigning (hu : Token.IsValue u r) (hr : r.kind = .reference)
    (hw : Token.IsValue w t) (shell : Shell σ) (session : Session σ) :
    runLine shell session (assigning u w) = .printed none (session.put r.value (literal t)) := by
  obtain ⟨sign, hoperand, hsign, hline⟩ := scanStrict_assigning hu hr hw
  have hvalue : (t.shift (u.length + 3)).IsOperand := hw.isOperand
  have hoperands : ∀ x ∈ [r, sign, t.shift (u.length + 3)], x.IsOperand := by
    simp only [List.forall_mem_cons]
    exact ⟨hu.isOperand, hoperand, hvalue, by simp⟩
  rw [runLine_operands hline hoperands, runStatement_assigning hr hsign hvalue.1]
  rfl

theorem invokes_operands (ht : t.IsArgument) {ts : List Token} (h : ∀ u ∈ ts, u.IsOperand) :
    Invokes (t :: ts) (Element.ofToken t :: ts.map Element.ofToken) where
  assigns := by
    cases ts with
    | nil => rfl
    | cons => simp [assigns, ht.kind_ne.2]
  supported := by
    rw [unsupported, Statement.filter_isBoundary_operands
      (List.forall_mem_cons.mpr ⟨ht.isOperand, h⟩)]
    simp [Parameter.sortedNames]
  elements := by
    have helements := @Element.ofTokens_operands (t :: ts)
      (List.forall_mem_cons.mpr ⟨ht.isOperand, h⟩) [] (by simp)
    rwa [List.append_nil, Element.ofTokens_nil, List.append_nil, List.map_cons] at helements

end Session

namespace Argument

def denoted (vars : Variables) (t : Token) : Datum :=
  if t.kind = .reference then referenced vars t.value else .text t.value

end Argument

open Argument (denoted)

theorem Binding.resolve_denoted {e : Element} {t : Token} (he : e.parts = [t]) (vars : Variables) :
    (valueOf e).resolve vars = denoted vars t := by
  by_cases ht : t.kind = .reference
  · rw [resolve_valueOf he ht, denoted, if_pos ht]
  · simp only [valueOf, he, denoted, if_neg ht]
    rfl

namespace Session

open Binding

variable {σ : Type} {shell : Shell σ} {session : Session σ} {c : Command σ} {p : Parameter}
  {t : Token} {w : Text}

/-- Some line calls a command with a token of this kind and value as the one value of a parameter,
behind its name or by place, and the call has `d` under the keyword of the parameter. No member of
the line goes by the name or the keyword of the parameter. -/
inductive Delivers (shell : Shell σ) (session : Session σ) (c : Command σ) (p : Parameter)
    (t : Token) : Datum → Prop where
  | intro {line : Text} {tokens : List Token} {s : Option Text × List Token} {call : Call}
      {e : Element} {v : Token} {d : Datum} :
      Token.scanStrict line = .ok tokens → s ∈ Statement.split none tokens →
      Calls shell session s.2 c call →
      Supplies c.parameters (some shell.types) (Element.ofTokens s.2) p e → e.parts = [v] →
      v.kind = t.kind ∧ v.value = t.value →
      (∀ m ∈ members c.parameters (some shell.types) (Element.ofTokens s.2),
        m.name ≠ p.name ∧ m.name ≠ p.keyword) →
      call.keywords.get? p.keyword = some d → Delivers shell session c p t d

theorem Delivers.eq_denoted {d : Datum} (h : Delivers shell session c p t d)
    (hn : (c.parameters.map fun p => Text.lower p.name).Nodup)
    (hkeywords : (c.parameters.map (·.keyword)).Nodup) (htype : p.type.takesText = true) :
    d = denoted session.vars t := by
  obtain ⟨hline, hs, ⟨hinvokes, hverb, hc, rfl, hk, haccepted, hself⟩, hsupplies, hparts, hv, hm,
    hd⟩ := h
  rename_i line tokens s e v command rest keywords
  have htokens : tokens = Token.scan line := @Token.eq_scan_of_read true line tokens hline
  have hnames : ∀ e ∈ command :: rest, e.isParameter = true → e.text ≠ [] := by
    intro e he
    rw [← hinvokes.elements] at he
    exact Element.text_ne_nil_of_mem (fun t ht => htokens ▸ Statement.mem_of_mem_split hs t ht) he
  rw [hinvokes.elements] at hsupplies hm
  obtain ⟨d', hd', hget⟩ := keywords_get? hn hkeywords hnames hk hsupplies.mem_writes hm
  rw [resolve_denoted hparts, ValueType.coerce_of_takesText htype] at hd'
  obtain rfl := Except.ok.inj hd'
  have hsame : denoted session.vars v = denoted session.vars t := by rw [denoted, hv.1, hv.2]; rfl
  rw [← hsame]
  exact Option.some.inj (hd.symm.trans hget)

theorem bind_takes {declared : List Parameter} {e : Element} {rest : List Element}
    {value : Argument} (h : Takes e rest value)
    (hfound : (Pass.start declared).found e.text = [p]) (hswitch : p.isSwitch = false)
    (command : Element) (cursor : Int) (types : Option TypeRegistry) :
    let b := bind (command :: e :: rest) cursor declared types
    b.named = [(p.name, value)] ∧ b.errors = [] ∧ b.positional = [] ∧ b.attached = [] := by
  have hgathered : gathered declared types (command :: e :: rest) = _ :=
    h.gathered_declared command hfound hswitch
  have hvalues : (gathered declared types (command :: e :: rest)).values = [] := by
    rw [hgathered]
    rfl
  obtain ⟨hnamed, -, hpositional, herrors, hattached, -⟩ := bind_of_values_nil hvalues cursor
  rw [hgathered] at hnamed herrors hattached
  exact ⟨hnamed, herrors, hpositional, hattached⟩

theorem scanStrict_spelled (command : Text) {name : Text} (hname : Sign.isParameterName name = true)
    (hw : Token.IsValue w t) :
    ∃ (called naming : Token) (i k : Nat), Token.scanStrict (spelled command name (' ' :: w)) =
        .ok (called :: [naming, t.shift i] ++ [Token.finish k]) ∧
      (called.IsArgument ∧ called.value = command) ∧
      naming.kind = .parameter ∧ naming.value = name ∧ naming.inline = none := by
  obtain ⟨d, more, rfl, hd, hd', rfl, hvalue⟩ := hw.exists_alone
  have hscan := Lexeme.scan_name Sign.isDash_hyphen hname (d :: more)
  have hrest : (Lexeme.ofName '-' name (' ' :: d :: more)).rest = ' ' :: d :: more := rfl
  have hall := scanAll_spelled command name (' ' :: d :: more)
  rw [hscan, hrest, Lexeme.scanAll_blank rfl, Lexeme.scanAll_cons hd hd', hvalue.rest,
    Lexeme.scanAll_nil] at hall
  have hfault : Token.fault? (spelled command name (' ' :: d :: more)) = none := by
    refine Token.fault?_eq_none ?_
    rw [hall]
    simp only [List.forall_mem_cons]
    exact ⟨Quoting.argument_opened _ _, rfl, hvalue.opened, by simp⟩
  refine ⟨.ofLexeme (0, Quoting.argument command (' ' :: '-' :: (name ++ ' ' :: d :: more))),
    .ofLexeme (dashAt command, .ofName '-' name (' ' :: d :: more)),
    dashAt command + (name.length + 1) + 1, (spelled command name (' ' :: d :: more)).length, ?_,
    ⟨Quoting.argument_kind _ _, Quoting.argument_value _ _⟩, rfl, rfl, rfl⟩
  rw [Token.scanStrict_eq_ok hfault, Token.scan, hall]
  simp only [Token.ofLexeme, Token.shift, List.map_cons, List.map_nil, Nat.zero_add]
  rfl

theorem exists_call (session : Session σ) {tokens : List Token} {command e : Element}
    {naming : Token} {stop : Nat} (hinvokes : Invokes tokens [command, .parameter naming stop, e])
    (he : e.isParameter = false) (hname : naming.value = p.name ∧ naming.inline = none)
    (hcommand : command.text = c.name)
    (hc : shell.registry.get? c.name = some c) (htypable : c.Typable) (hp : p ∈ c.parameters)
    (hswitch : p.isSwitch = false) (hself : p.keyword ≠ "self".toList) {d : Datum}
    (hd : p.type.coerce ((valueOf e).resolve session.vars) = .ok d) :
    Supplies c.parameters (some shell.types) (Element.ofTokens tokens) p e ∧
      members c.parameters (some shell.types) (Element.ofTokens tokens) = [] ∧
      ∃ call, Calls shell session tokens c call ∧ call.keywords = [(p.keyword, d)] := by
  have hn := htypable.names.apart.nodup_lower_names
  have hfound : (Pass.start c.parameters).found naming.value = [p] := by
    rw [hname.1, Pass.found, Pass.start_available hn, Pass.keyed_map_snd,
      if_neg (by simpa using htypable.name_ne_nil p hp),
      htypable.names.apart.matching_eq hp p.isNamed_name]
  have htext : (Element.parameter naming stop).text = naming.value := Element.text_parameter ..
  have htakes : Takes (.parameter naming stop) [e] (valueOf e) := by
    refine ⟨rfl, ?_⟩
    simp only [valueAfter, Element.inline, hname.2, List.head?_cons, he, Bool.false_eq_true,
      if_false, List.length_singleton]
  obtain ⟨hnamed, herrors, hpositional, hattached⟩ :=
    bind_takes htakes (htext.symm ▸ hfound) hswitch command (-1) (some shell.types)
  have hmembers := bind_attached_eq_nil.mp hattached
  have hkeywords : (bind [command, .parameter naming stop, e] (-1) c.parameters
      (some shell.types)).keywords c session.vars = .ok [(p.keyword, d)] := by
    refine keywords_eq_ok.mpr ⟨herrors, hpositional, ?_⟩
    rw [hnamed, keywordsFrom_cons, passed?_parameter hn hp (by simp [hmembers]), hd]
    rfl
  have hfree : Entries.has [(p.keyword, d)] "self".toList = false := by
    simpa [Entries.has] using hself
  rw [hinvokes.elements]
  exact ⟨.named .refl rfl hname.2 (htext.symm ▸ hfound) hswitch he, hmembers, _,
    .mk hinvokes (Verb.of?_eq_none (hcommand ▸ htypable.verb)) (hcommand ▸ hc) rfl hkeywords
      (.inl hattached) hfree, rfl⟩

theorem delivers_spelled (hw : Token.IsValue w t) (hc : shell.registry.get? c.name = some c)
    (htypable : c.Typable) (hp : p ∈ c.parameters) (hswitch : p.isSwitch = false)
    (htype : p.type.takesText = true) (hself : p.keyword ≠ "self".toList)
    (session : Session σ) : Delivers shell session c p t (denoted session.vars t) := by
  obtain ⟨called, naming, i, k, hline, ⟨hcalled, hcommand⟩, hnaming, hname⟩ :=
    scanStrict_spelled c.name (htypable.shape p hp) hw
  have hvalue : (t.shift i).IsOperand := hw.isOperand
  have hoperands : ∀ x ∈ [naming, t.shift i], x.IsOperand := by
    simp only [List.forall_mem_cons]
    exact ⟨by simp [Token.IsOperand, hnaming], hvalue, by simp⟩
  have hinvokes := invokes_operands hcalled hoperands
  have hnamed : Element.ofToken naming = .parameter naming naming.stop := if_pos hnaming
  have hpart : Element.ofToken (t.shift i) =
      .value [t.shift i] (t.shift i).start (t.shift i).stop :=
    if_neg (Element.continuesList_iff.mp hw.value).1
  rw [List.map_cons, List.map_cons, List.map_nil, hnamed, hpart] at hinvokes
  obtain ⟨hsupplies, hmembers, call, hcalls, hkeywords⟩ := exists_call session hinvokes
    rfl hname ((Element.ofToken_text called).trans hcommand) hc htypable hp hswitch hself
    (ValueType.coerce_of_takesText htype _)
  have hsplit := Statement.split_operands
    (List.forall_mem_cons.mpr ⟨hcalled.isOperand, hoperands⟩) none k
  refine .intro (v := t.shift i) hline (hsplit ▸ List.mem_singleton_self _) hcalls hsupplies rfl
    ⟨rfl, rfl⟩ (by simp [hmembers]) ?_
  rw [hkeywords, resolve_denoted rfl, Entries.get?_cons, if_pos rfl]
  rfl

/-- A value that is no number is assigned as what its token stands for, also if the token is a
reference, which stands for its name. Passed directly, it is delivered as what it denotes; passed by
the variable afterwards, as what was assigned, unless the variable is an automatic one. So the two
are the same when the value is no reference and the variable is not automatic. -/
theorem delivers_assigned {u : Text} {r : Token} (hu : Token.IsValue u r)
    (hr : r.kind = .reference) (hw : Token.IsValue w t) (hnumber : t.kind ≠ .number)
    (shell : Shell σ) (session : Session σ) :
    let after := session.put r.value (.text t.value)
    let direct := denoted session.vars t
    let indirect := (Argument.automatic? r.value).getD (.text t.value)
    runLine shell session (assigning u w) = .printed none after ∧
      (∀ (c : Command σ) (p : Parameter), (c.parameters.map fun p => Text.lower p.name).Nodup →
        (c.parameters.map (·.keyword)).Nodup → p.type.takesText = true →
        (∀ d, Delivers shell session c p t d → d = direct) ∧
        (∀ d, Delivers shell after c p r d → d = indirect) ∧
        (shell.registry.get? c.name = some c → c.Typable → p ∈ c.parameters →
          p.isSwitch = false → p.keyword ≠ "self".toList →
          Delivers shell session c p t direct ∧ Delivers shell after c p r indirect)) ∧
      (t.kind ≠ .reference → Argument.automatic? r.value = none → indirect = direct) := by
  intro after direct indirect
  have hliteral : literal t = .text t.value := if_neg hnumber
  have hindirect : denoted after.vars r = indirect := by
    rw [denoted, if_pos hr, Argument.referenced]
    simp only [after, indirect, put, Variables.value, Variables.entry?, Entries.get?_set_self]
  have hrun := runLine_assigning hu hr hw shell session
  rw [hliteral] at hrun
  refine ⟨hrun, ?_, ?_⟩
  · intro c p hn hkeywords htype
    refine ⟨fun d hd => hd.eq_denoted hn hkeywords htype,
      fun d hd => (hd.eq_denoted hn hkeywords htype).trans hindirect, ?_⟩
    intro hc htypable hp hswitch hself
    refine ⟨delivers_spelled hw hc htypable hp hswitch htype hself session, ?_⟩
    rw [← hindirect]
    exact delivers_spelled hu hc htypable hp hswitch htype hself after
  · intro hreference hautomatic
    simp only [indirect, direct, denoted, hautomatic, Option.getD_none, if_neg hreference]

theorem delivers_assigned_go :
    let shell := goShell "size".toList
    let session : Session (Unit × List Call) := start [("x".toList, .text "v".toList)] ((), [])
    let r : Token := ⟨.reference, "$y".toList, "y".toList, 0, none, false⟩
    let t : Token := ⟨.verbatim, "'a b'".toList, "a b".toList, 0, none, true⟩
    ∃ after, runLine shell session "$y = 'a b'".toList = .printed none after ∧
      Delivers shell session (go "size".toList) (passedAs "size".toList) t (.text "a b".toList) ∧
      Delivers shell after (go "size".toList) (passedAs "size".toList) r (.text "a b".toList) := by
  intro shell session r t
  have hr : Token.IsValue "$y".toList r := .of_scan (by decide +kernel) (by decide +kernel) rfl rfl
  have ht : Token.IsValue "'a b'".toList t :=
    .of_scan (by decide +kernel) (by decide +kernel) rfl rfl
  obtain ⟨hrun, hdelivers, hsame⟩ := delivers_assigned hr rfl ht nofun shell session
  obtain ⟨hdirect, hindirect⟩ := (hdelivers (go "size".toList) (passedAs "size".toList)
    (List.pairwise_singleton _ _) (List.pairwise_singleton _ _) rfl).2.2 (get?_goShell _)
    (typable_go _) (List.mem_singleton_self _) rfl (by decide)
  rw [hsame nofun (by decide +kernel)] at hindirect
  exact ⟨_, hrun, hdirect, hindirect⟩

/-- A reference that is assigned is delivered as its name. -/
theorem runLine_assigned_reference :
    let session : Session (Unit × List Call) := start [("x".toList, .text "v".toList)] ((), [])
    let given (session : Session (Unit × List Call)) (line : String) :=
      (runLine (goShell "size".toList) session line.toList).session.state.2.map fun call =>
        call.keywords.map fun entry => (entry.1, entry.2.print.toOption)
    let after := (runLine (goShell "size".toList) session "$y = $x".toList).session
    given session "Go -S $x" = [[("size".toList, some "v".toList)]] ∧
      given after "Go -S $y" = [[("size".toList, some "x".toList)]] := by
  decide +kernel

end Session

end CommandShell
