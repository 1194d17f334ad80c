import CommandShell.Proofs.Binding.Writes
import CommandShell.Proofs.Token.Inside
import CommandShell.Proofs.Token.Parameter
import CommandShell.Proofs.Token.Separator

/-!
The two spellings of a parameter's value: behind a colon, and as an element of its own. Both give
the parameter the same value, with the exception of references that only the binding of an element
looks up. A word that begins with a colon makes two colons, which end the name and begin no value.
-/

set_option autoImplicit false

namespace CommandShell

/-- A token that gives the same value behind a colon. A reference does when it names an automatic
variable without braces; other texts do unless they look like such a reference once decoded. -/
structure Token.ReadsInline (t : Token) : Prop where
  reference : t.kind = .reference → t.text = '$' :: t.value ∧
    (Argument.automatic? t.value).isSome = true
  other : t.kind ≠ .reference → ∀ name, t.value = '$' :: name → Argument.automatic? name = none

theorem Token.exists_alone {w : Text} {t : Token} {n : Nat}
    (hw : scanStrict w = .ok [t, finish n]) (hraw : t.text = w)
    (hvalue : Element.continuesList t = true) :
    ∃ c rest, w = c :: rest ∧ Sign.isBlank c = false ∧ (c == '#') = false ∧
      t = ofLexeme (0, Lexeme.scan c rest) ∧ (Lexeme.scan c rest).Alone := by
  have htokens : [t] ++ [finish n] = (Lexeme.scanAll 0 w).map ofLexeme ++ [finish w.length] :=
    @eq_scan_of_read true w _ hw
  have hone := (List.append_inj' htokens rfl).1.symm
  obtain ⟨q, hq, rfl⟩ := List.map_eq_singleton_iff.mp hone
  obtain ⟨c, rest, rfl, hb, hc, rfl, hrest⟩ := Lexeme.eq_scan_of_raw hq hraw
  have hopened := fault?_of_read hw
  rw [fault?, hq] at hopened
  obtain ⟨hparameter, hoperator, -⟩ := Element.continuesList_iff.mp hvalue
  exact ⟨c, rest, rfl, hb, hc, rfl, hoperator, hparameter, by simpa using hopened, hrest⟩

namespace Binding

variable {declared : List Parameter} {types : Option TypeRegistry}

theorem ofToken_alone {l : Lexeme} (h : l.Alone) (i : Nat) :
    Element.ofToken (Token.ofLexeme (i, l)) =
      .value [Token.ofLexeme (i, l)] i (i + l.raw.length) :=
  if_neg h.parameter

/-- Read inside another token and bound from there, a token has the value of its own element. -/
theorem inlineValue_scan {start : Nat} {c : Char} {rest : Text}
    (h : (Lexeme.scan c rest).Alone)
    (ht : (Token.ofLexeme (start, Lexeme.scan c rest)).ReadsInline) :
    let w := Word.scan none (c :: rest)
    inlineValue w.value =
        valueOf (Element.ofToken (Token.ofLexeme (start, Lexeme.scan c rest))) ∧
      w.opened = none ∧ w.rest = [] := by
  rw [ofToken_alone h]
  by_cases hk : (Lexeme.scan c rest).kind = .reference
  · obtain ⟨htext, hsome⟩ := ht.reference hk
    obtain ⟨d, hd⟩ := Option.isSome_iff_exists.mp hsome
    obtain ⟨hvalue, hopened, hrest⟩ := h.scan_word_reference hk htext
    refine ⟨?_, hopened, hrest⟩
    have hd' : Argument.automatic? (Lexeme.scan c rest).value = some d := hd
    simp only [hvalue, inlineValue_automatic hd', valueOf, Element.parts, Token.ofLexeme, hk, hd',
      if_true]
  · obtain ⟨hvalue, hopened, hrest⟩ := h.scan_word hk
    refine ⟨?_, hopened, hrest⟩
    have hplain := inlineValue_text (ht.other hk)
    simp only [Token.ofLexeme] at hplain
    simp only [hvalue, hplain, valueOf, Element.parts, Token.ofLexeme, hk, if_false]

structure Takes (e : Element) (rest : List Element) (value : Argument) : Prop where
  parameter : e.isParameter = true
  value : valueAfter e rest.head? false = (value, rest.length)

theorem exists_found {typed : Text} (hne : typed ≠ []) {p : Parameter} (hp : p ∈ declared)
    (htyped : Text.lower typed = Text.lower p.name) :
    ∃ q ∈ (Pass.start declared).found typed,
      q ∈ declared ∧ Text.lower q.name = Text.lower p.name := by
  have hkey : Text.lower p.name ∈ (Pass.start declared).available.map (·.1) := by
    refine Entries.mem_keys_ofList.mpr ?_
    rw [List.map_map]
    exact List.mem_map_of_mem hp
  obtain ⟨⟨key, q⟩, hentry, rfl⟩ := List.mem_map.mp hkey
  obtain ⟨q', hq, hsame⟩ := List.mem_map.mp (Entries.mem_of_mem_ofList hentry)
  obtain ⟨hkey, rfl⟩ := Prod.mk.inj hsame
  have hexact : q' ∈ ((Pass.start declared).available.map (·.2)).filter (·.isNamed typed) := by
    refine List.mem_filter.mpr ⟨List.mem_map_of_mem hentry, ?_⟩
    simp [Parameter.isNamed, Parameter.names, hkey, htyped]
  refine ⟨q', ?_, hq, hkey⟩
  rw [Pass.found, if_neg (by simpa using hne), Parameter.matching]
  split
  · rename_i hnone
    rw [hnone] at hexact
    cases hexact
  · exact hexact

variable {e e' : Element} {rest rest' : List Element} {value : Argument} {q : Parameter}

theorem gathered_of_reads (he : e.isParameter = true) (command : Element) {r : Reading}
    {noted : List Diagnostic}
    (hr : Reads ⟨declared, types, none⟩ (Pass.start declared) e rest r rest.length noted) :
    gathered declared types (command :: e :: rest) = r.after noted (Pass.start declared) := by
  rw [gathered, List.drop_one, List.tail_cons, Pass.run_parameter he hr, List.drop_length, Pass.run,
    Pass.anchorAt]

namespace Takes

theorem gathered_declared (h : Takes e rest value) (command : Element)
    (hfound : (Pass.start declared).found e.text = [q]) (hq : q.isSwitch = false) :
    gathered declared types (command :: e :: rest) =
      (Reading.declared q value).after [] (Pass.start declared) :=
  gathered_of_reads h.parameter command (.declared hfound (hq ▸ h.value))

theorem gathered_eq (h : Takes e rest value) (h' : Takes e' rest' value) (htext : e.text = e'.text)
    (hstart : e.start = e'.start) (hfound : (Pass.start declared).found e.text ≠ [])
    (hswitch : ∀ q, (Pass.start declared).found e.text = [q] → q.isSwitch = false)
    (command command' : Element) :
    gathered declared types (command :: e :: rest) =
      gathered declared types (command' :: e' :: rest') := by
  match hf : (Pass.start declared).found e.text with
  | [] => exact absurd hf hfound
  | [q] =>
    rw [h.gathered_declared command hf (hswitch q hf),
      h'.gathered_declared command' (htext ▸ hf) (hswitch q hf)]
  | q :: q' :: more =>
    rw [gathered_of_reads h.parameter command (.ambiguous hf h.value),
      gathered_of_reads h'.parameter command' (.ambiguous (htext ▸ hf) h'.value), htext, hstart]

theorem named_get? (h : Takes e rest value) (command : Element) (cursor : Int)
    (hfound : (Pass.start declared).found e.text = [q]) (hq : q.isSwitch = false) :
    (bind (command :: e :: rest) cursor declared types).named.get? q.name = some value := by
  obtain ⟨a, hrun⟩ := exists_anchor (command :: e :: rest) cursor declared types
  rw [bind, hrun, h.gathered_declared command hfound hq]
  exact finish_named_of_declared (Place.sound_first declared (command :: e :: rest)) value [] _ a

end Takes

section Lines

def spelled (command name behind : Text) : Text :=
  Quoting.quoteIfNeeded command ++ ' ' :: '-' :: (name ++ behind)

variable {name behind : Text} {l : Lexeme} {ps : List Placed}

def dashAt (command : Text) : Nat := (Quoting.quoteIfNeeded command).length + 1

theorem scanAll_spelled (command name behind : Text) :
    Lexeme.scanAll 0 (spelled command name behind) =
      (0, Quoting.argument command (' ' :: '-' :: (name ++ behind))) ::
        (dashAt command, Lexeme.scan '-' (name ++ behind)) ::
        Lexeme.scanAll (dashAt command + (Lexeme.scan '-' (name ++ behind)).raw.length)
          (Lexeme.scan '-' (name ++ behind)).rest := by
  rw [spelled, Quoting.scanAll_quoteIfNeeded 0 command rfl, Lexeme.scanAll_blank rfl,
    Lexeme.scanAll_cons rfl rfl, Nat.zero_add, dashAt]

theorem read_spelled (command : Text) (hscan : Lexeme.scan '-' (name ++ behind) = l)
    (hparameter : l.kind = .parameter) (hopened : l.opened = none)
    (hps : Lexeme.scanAll (dashAt command + l.raw.length) l.rest = ps)
    (hall : ∀ p ∈ ps, p.2.kind ≠ .operator ∧ p.2.opened = none) :
    Token.fault? (spelled command name behind) = none ∧
      ∃ e : Element, Element.ofTokens (Token.scan (spelled command name behind)) =
        e :: Element.ofToken (Token.ofLexeme (dashAt command, l)) ::
          ps.map fun p => Element.ofToken (Token.ofLexeme p) := by
  subst hscan hps
  have hscanned := scanAll_spelled command name behind
  constructor
  · refine Token.fault?_eq_none ?_
    rw [hscanned]
    simp only [List.mem_cons, forall_eq_or_imp]
    exact ⟨Quoting.argument_opened _ _, hopened, fun p hp => (hall p hp).2⟩
  · have hcommand := Quoting.argument_kind command (' ' :: '-' :: (name ++ behind))
    have hkind : ∀ p ∈ Lexeme.scanAll 0 (spelled command name behind), p.2.kind ≠ .operator := by
      rw [hscanned]
      simp only [List.mem_cons, forall_eq_or_imp, hparameter]
      refine ⟨?_, by simp, fun p hp => (hall p hp).1⟩
      rcases hcommand with h | h | h <;> simp [h]
    have hoperands : ∀ t ∈ (Lexeme.scanAll 0 (spelled command name behind)).map Token.ofLexeme,
        t.IsOperand := by
      intro t ht
      obtain ⟨p, hp, rfl⟩ := List.mem_map.mp ht
      obtain ⟨c, rest, -, hl⟩ := Lexeme.exists_scan_of_mem hp
      exact ⟨hkind p hp, show p.2.kind ≠ _ from hl ▸ Lexeme.scan_kind c rest⟩
    refine ⟨Element.ofToken (Token.ofLexeme
      (0, Quoting.argument command (' ' :: '-' :: (name ++ behind)))), ?_⟩
    rw [Token.scan, Element.ofTokens_operands hoperands (by simp [Token.isOperator, Token.finish]),
      Element.ofTokens_skip (.inl rfl), Element.ofTokens_nil, List.append_nil, List.map_map,
      hscanned]
    rfl

/-- A line that can be read and gives one parameter of a command a value. -/
structure Gives (line typed : Text) (start : Nat) (value : Argument) : Prop where
  read : Token.scanStrict line = .ok (Token.scan line)
  elements : ∃ (command e : Element) (rest : List Element),
    Element.ofTokens (Token.scan line) = command :: e :: rest ∧ e.text = typed ∧
      e.start = start ∧ Takes e rest value

/-- What a value holds does not depend on where it stands. -/
theorem valueOf_ofLexeme {l : Lexeme} (h : l.Alone) (i j : Nat) :
    valueOf (Element.ofToken (Token.ofLexeme (i, l))) =
      valueOf (Element.ofToken (Token.ofLexeme (j, l))) := by
  rw [ofToken_alone h, ofToken_alone h]
  rfl

variable {c : Char} {rest : Text}

theorem gives_inline (hname : Sign.isParameterName name = true) (hc : c ≠ ':')
    (h : (Lexeme.scan c rest).Alone)
    (ht : (Token.ofLexeme (0, Lexeme.scan c rest)).ReadsInline) (command : Text) :
    Gives (spelled command name (':' :: c :: rest)) name (dashAt command)
      (valueOf (Element.ofToken (Token.ofLexeme (0, Lexeme.scan c rest)))) := by
  obtain ⟨hvalue, hopened, hrest⟩ := inlineValue_scan h ht
  have hraw : (Word.scan none (c :: rest)).raw = c :: rest := by
    simpa [hrest] using Word.scan_raw_append_rest none (c :: rest)
  have hscan := Lexeme.scan_colon Sign.isDash_hyphen hname (w := c :: rest) (by simpa using hc)
  simp only [hraw, hopened, hrest, List.isEmpty_cons, Bool.false_eq_true, if_false,
    Option.map_none] at hscan
  obtain ⟨hfault, e, helements⟩ := read_spelled command hscan rfl rfl
    (Lexeme.scanAll_nil _) (by simp)
  refine ⟨Token.scanStrict_eq_ok hfault, e, _, _, helements, Element.ofToken_text _, rfl, rfl, ?_⟩
  rw [← hvalue]
  rfl

theorem gives_apart (command : Text) {x : Lexeme} {i : Nat}
    (hscan : Lexeme.scan '-' (name ++ behind) = .ofName '-' name behind) (h : x.Alone)
    (hx : Lexeme.scanAll (dashAt command + (name.length + 1)) behind = [(i, x)]) :
    Gives (spelled command name behind) name (dashAt command)
      (valueOf (Element.ofToken (Token.ofLexeme (0, x)))) := by
  obtain ⟨hfault, e, helements⟩ := read_spelled command hscan rfl rfl hx
    (by simp [h.operator, h.opened])
  refine ⟨Token.scanStrict_eq_ok hfault, e, _, _, helements, Element.ofToken_text _, rfl, rfl, ?_⟩
  rw [valueOf_ofLexeme h 0 i, List.map_cons, List.map_nil, List.head?_cons, ofToken_alone h]
  rfl

theorem Gives.agrees {line line' : Text} {start : Nat} {value : Argument}
    (h : Gives line name start value) (h' : Gives line' name start value)
    (hfound : (Pass.start declared).found name ≠ [])
    (hswitch : ∀ q, (Pass.start declared).found name = [q] → q.isSwitch = false)
    (cursor other : Int) :
    Agrees (bind (Element.ofTokens (Token.scan line)) cursor declared types)
      (bind (Element.ofTokens (Token.scan line')) other declared types) := by
  obtain ⟨-, command, e, rest, helements, rfl, rfl, htakes⟩ := h
  obtain ⟨-, command', e', rest', helements', htext, hstart, htakes'⟩ := h'
  rw [helements, helements']
  exact agrees_of_gathered (htakes.gathered_eq htakes' htext.symm hstart.symm hfound hswitch
    command command') cursor other

theorem Gives.named_get? {line : Text} {start : Nat} {value : Argument} {q : Parameter}
    (h : Gives line name start value) (hfound : (Pass.start declared).found name = [q])
    (hq : q.isSwitch = false) (cursor : Int) :
    (bind (Element.ofTokens (Token.scan line)) cursor declared types).named.get? q.name =
      some value := by
  obtain ⟨-, command, e, rest, helements, rfl, rfl, htakes⟩ := h
  rw [helements]
  exact htakes.named_get? command cursor hfound hq

end Lines

/-- A value behind a colon binds as it does behind a blank. With a colon at its start that is so of
the value with one colon more: two colons end the name. -/
theorem bind_spellings {p : Parameter} (hp : p ∈ declared)
    (hswitch : ∀ q ∈ declared, Text.lower q.name = Text.lower p.name → q.isSwitch = false)
    {typed : Text} (hname : Sign.isParameterName typed = true)
    (htyped : Text.lower typed = Text.lower p.name) {w : Text} {t : Token} {n : Nat}
    (hw : Token.scanStrict w = .ok [t, Token.finish n]) (hraw : t.text = w)
    (hvalue : Element.continuesList t = true) (command : Text) (types : Option TypeRegistry)
    (cursor other : Int) :
    let line := spelled command typed
    let bound (line : Text) (cursor : Int) :=
      bind (Element.ofTokens (Token.scan line)) cursor declared types
    (w.head? ≠ some ':' → t.ReadsInline →
      Token.scanStrict (line (':' :: w)) = .ok (Token.scan (line (':' :: w))) ∧
      Token.scanStrict (line (' ' :: w)) = .ok (Token.scan (line (' ' :: w))) ∧
      Agrees (bound (line (':' :: w)) cursor) (bound (line (' ' :: w)) other)) ∧
    (w.head? = some ':' →
      Token.scanStrict (line (':' :: w)) = .ok (Token.scan (line (':' :: w))) ∧
      Token.scanStrict (line (' ' :: ':' :: w)) = .ok (Token.scan (line (' ' :: ':' :: w))) ∧
      Agrees (bound (line (':' :: w)) cursor) (bound (line (' ' :: ':' :: w)) other)) ∧
    ((declared.map fun p => Text.lower p.name).Nodup →
      Parameter.matching typed declared = [p] →
      (bound (line (' ' :: w)) other).named.get? p.name = some (valueOf (Element.ofToken t))) := by
  intro line bound
  obtain ⟨c, rest, rfl, hb, hc, rfl, halone⟩ := Token.exists_alone hw hraw hvalue
  have hne : typed ≠ [] := by
    rintro rfl
    cases hname
  obtain ⟨q, hq, hin, hsame⟩ := exists_found hne hp htyped
  have hfound : (Pass.start declared).found typed ≠ [] := List.ne_nil_of_mem hq
  -- Another parameter of the same name in other letter case may be the one that is available.
  have hone : ∀ q', (Pass.start declared).found typed = [q'] → q'.isSwitch = false := by
    intro q' hq'
    rw [hq'] at hq
    exact List.mem_singleton.mp hq ▸ hswitch q hin hsame
  have hapart {x : Char} {s : Text} (hx : Sign.isBlank x = false) (hx' : (x == '#') = false)
      (h : (Lexeme.scan x s).Alone) :=
    gives_apart command (Lexeme.scan_name Sign.isDash_hyphen hname (x :: s)) h (by
      rw [Lexeme.scanAll_blank rfl, Lexeme.scanAll_cons hx hx', h.rest, Lexeme.scanAll_nil])
  refine ⟨fun hcolon ht => ?_, fun hcolon => ?_, fun hn hmatching => ?_⟩
  · have hinline := gives_inline hname (by simpa using hcolon) halone ht command
    exact ⟨hinline.read, (hapart hb hc halone).read,
      hinline.agrees (hapart hb hc halone) hfound hone cursor other⟩
  · obtain rfl : c = ':' := by simpa using hcolon
    have hdouble := gives_apart command
      (Lexeme.scan_double_colon Sign.isDash_hyphen hname rest) halone.behind_colon (by
        rw [Lexeme.scanAll_cons rfl rfl, halone.behind_colon.rest, Lexeme.scanAll_nil])
    have hblanked := hapart rfl rfl halone.behind_colon
    exact ⟨hdouble.read, hblanked.read, hdouble.agrees hblanked hfound hone cursor other⟩
  · have hmatched : (Pass.start declared).found typed = [p] := by
      rw [Pass.found, Pass.start_available hn, Pass.keyed_map_snd, if_neg (by simpa using hne),
        hmatching]
    exact (hapart hb hc halone).named_get? hmatched (hswitch p hp rfl) other

theorem bind_spellings_cell :
    let bound (line : Text) := bind (Element.ofTokens (Token.scan line)) (-1) cell none
    Agrees (bound "Set -path:a'b c'`$x".toList) (bound "Set -path a'b c'`$x".toList) ∧
      (bound "Set -path a'b c'`$x".toList).named.get? "Path".toList =
        some (.known (.text "ab c$x".toList)) ∧
      Agrees (bound "Set -path:$True".toList) (bound "Set -path $True".toList) ∧
      Agrees (bound "Set -path::x".toList) (bound "Set -path ::x".toList) := by
  intro bound
  have hswitch : ∀ q ∈ cell, Text.lower q.name = Text.lower "Path".toList →
      q.isSwitch = false := by decide +kernel
  have hspell {w : Text} {t : Token} {n : Nat} (hfault : Token.fault? w = none)
      (hscan : Token.scan w = [t, Token.finish n]) (hraw : t.text = w)
      (hvalue : Element.continuesList t = true) :=
    bind_spellings (List.mem_cons_self (l := cell.tail)) hswitch
      (by decide +kernel : Sign.isParameterName "path".toList = true) (by decide +kernel)
      (hscan ▸ Token.scanStrict_eq_ok hfault) hraw hvalue "Set".toList none (-1) (-1)
  obtain ⟨hword, -, hgiven⟩ := hspell (w := "a'b c'`$x".toList)
    (t := ⟨.bare, "a'b c'`$x".toList, "ab c$x".toList, 0, none, false⟩) (n := 9)
    (by decide +kernel) (by decide +kernel) rfl rfl
  obtain ⟨htrue, -, -⟩ := hspell (w := "$True".toList)
    (t := ⟨.reference, "$True".toList, "True".toList, 0, none, false⟩) (n := 5)
    (by decide +kernel) (by decide +kernel) rfl rfl
  obtain ⟨-, hcolon, -⟩ := hspell (w := ":x".toList)
    (t := ⟨.bare, ":x".toList, ":x".toList, 0, none, true⟩) (n := 2)
    (by decide +kernel) (by decide +kernel) rfl rfl
  have hset : Quoting.quoteIfNeeded "Set".toList = "Set".toList := by decide +kernel
  simp only [spelled, hset] at hword htrue hcolon hgiven
  have hone : Parameter.matching "path".toList cell = [cell.head (by simp [cell])] := by
    rfl
  refine ⟨(hword (by decide) ⟨fun h => (nomatch h), fun _ name h => (nomatch h)⟩).2.2,
    hgiven (by decide +kernel) hone, ?_, (hcolon rfl).2.2⟩
  exact (htrue (by decide) ⟨fun _ => ⟨rfl, by decide +kernel⟩, fun h => absurd rfl h⟩).2.2

/-- A word that begins with a colon is one value behind a blank and another behind a colon. -/
theorem bind_double_colon :
    let bound (line : Text) := bind (Element.ofTokens (Token.scan line)) (-1) cell none
    let value (line : Text) := ((bound line).named.get? "Path".toList).map (·.resolve [])
    Token.scanStrict ":x".toList =
        .ok [⟨.bare, ":x".toList, ":x".toList, 0, none, true⟩, Token.finish 2] ∧
      (value "Set -Path :x".toList).map Datum.print = some (.ok ":x".toList) ∧
      value "Set -Path::x".toList ≠ value "Set -Path :x".toList := by
  intro bound value
  have hscan : Token.scan ":x".toList =
      [⟨.bare, ":x".toList, ":x".toList, 0, none, true⟩, Token.finish 2] := by decide +kernel
  have hapart : (value "Set -Path :x".toList).map Datum.print = some (.ok ":x".toList) := by
    decide +kernel
  have hinline : (value "Set -Path::x".toList).map Datum.print = some (.ok "::x".toList) := by
    decide +kernel
  refine ⟨hscan ▸ Token.scanStrict_eq_ok (by decide +kernel), hapart, fun hsame => ?_⟩
  rw [hsame, hapart] at hinline
  exact absurd hinline (by decide)

end Binding

end CommandShell
