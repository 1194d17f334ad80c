import CommandShell.Proofs.Binding.Replace
import CommandShell.Proofs.Completion.Offer
import CommandShell.Proofs.Element.Parts

/-!
A candidate that a provider supplied for the parameter in use, after it has taken the place of the
span at the end of a line: the parameter is bound to it, or to a list that it ends.
-/

set_option autoImplicit false

namespace CommandShell

/-- The value itself, or a list with the value as its last item. -/
def Argument.EndsIn (a : Argument) (v : Text) : Prop :=
  a = .known (.text v) ∨ ∃ items, a = .known (.list (items ++ [.text v]))

namespace Binding

theorem given_of_endsIn {e : Element} {a : Token} (h : e.EndsIn a) (ha : a.IsArgument) :
    (given e).EndsIn a.value := by
  obtain ⟨hp, hlast⟩ := h
  obtain ⟨parts, hparts⟩ := List.getLast?_eq_some_iff.mp hlast
  rw [given_of_value hp, valueOf, hparts]
  cases parts with
  | nil =>
    rw [List.nil_append]
    exact .inl (if_neg ha.kind_ne.2)
  | cons p parts =>
    cases parts with
    | nil => exact .inr ⟨[.text p.value], rfl⟩
    | cons q parts =>
      refine .inr ⟨(p :: q :: parts).map fun t => .text t.value, ?_⟩
      simp only [List.cons_append, List.map_cons, List.map_append, List.map_nil]

theorem bindInvocation_eq {elements : List Element} {command : Element}
    (h : elements.head? = some command) {describe : Text → Except Raised (List Parameter)}
    {declared : List Parameter} (hd : describe command.text = .ok declared) (cursor : Int)
    (types : Option TypeRegistry) :
    bindInvocation elements cursor (some describe) types = bind elements cursor declared types := by
  simp only [bindInvocation, h, hd, List.nil_append]

end Binding

namespace Completion

variable {σ : Type} {context : Context σ} {line : Text}

def lastElements (line : Text) : List Element :=
  Element.ofTokens (Statement.at? (Token.scan line) line.length)

theorem lastElements_eq (line : Text) :
    lastElements line = Element.ofTokens (Statement.final (Token.ofText line)) := by
  rw [lastElements, Statement.at?_end]

def accept (line : Text) (start length : Nat) (insertion : Text) : Text :=
  line.take start ++ insertion ++ line.drop (start + length)

/-- A value that can be put where the cursor is at the end of a line. -/
structure Fits (line v : Text) (previous e : Element) : Prop where
  /-- it is not the value of a member that touches the parameter -/
  detached : touchingName? previous e = none
  /-- a dash has a name behind it -/
  named : e.isParameter = true → e.text ≠ []
  /-- a second colon would end the name -/
  colon : e.isParameter = true → (Quoting.quoteIfNeeded v).head? ≠ some ':'
  /-- an inline value is not the name of an automatic variable -/
  automatic : e.isParameter = true → ∀ name, v = '$' :: name → Argument.automatic? name = none
  /-- what is in front of the value ends before it, and no comment has begun -/
  apart : e.isParameter = false → Sealed (line.take (partSpan line e line.length).start)
  /-- a value that is not yet typed does not follow a comma that waits for one -/
  closed : e.parts = [] → previous.Closed

theorem laid_final (line : Text) : Token.Laid line.length (Statement.final (Token.ofText line)) :=
  (Token.laid_scanAll line).sublist (Statement.final_sublist _)

theorem lastElements_append {text : Text} {front : List Token} {t : Token}
    (h : Token.ofText text = front ++ [t]) (ht : t.kind ≠ .operator) :
    lastElements text = Element.ofTokens (Statement.final front ++ [t]) := by
  have hall : ∀ u ∈ front ++ [t], u.kind ≠ .endOfInput := fun u hu =>
    Token.kind_ne_of_mem_ofText (h ▸ hu)
  rw [lastElements_eq, h, Statement.final_append hall (by simp [Statement.isBoundary, ht])]

theorem dashAsParameter_cases (cursor : Nat) (x : Element) : dashAsParameter cursor x = x ∨
    (dashAsParameter cursor x).isParameter = true ∧ (dashAsParameter cursor x).text = [] := by
  fun_cases dashAsParameter cursor x with
  | case1 => exact .inr ⟨rfl, Element.text_parameter _ _⟩
  | _ => exact .inl rfl

section Ends

variable {v : Text} {before : List Element} {previous e : Element}

theorem lastElements_cases (helements : elementsAt line line.length = before ++ [e])
    (hnamed : e.isParameter = true → e.text ≠ []) :
    (lastElements line = before ∧ e = .value [] line.length line.length) ∨
      (lastElements line = before ++ [e] ∧ e.stop = line.length) := by
  obtain ⟨before', e', heq, -, hend⟩ := elementsAt_end line
  obtain ⟨rfl, hlast⟩ := List.append_inj' (helements.symm.trans heq) rfl
  obtain rfl := (List.cons.inj hlast).1
  refine hend.imp id ?_
  rintro ⟨last, hbefore, hstop, hdash⟩
  obtain rfl : e = last := hdash.trans ((dashAsParameter_cases _ _).resolve_right fun h => by
    rw [← hdash] at h
    exact hnamed h.1 h.2)
  exact ⟨hbefore, hstop⟩

theorem argumentAt_continuesList (start : Nat) (v : Text) :
    Element.continuesList (Token.argumentAt start v) = true := by
  have h := Token.argumentAt_isArgument start v
  exact Element.continuesList_iff.mpr ⟨h.kind_ne.1, h.isOperand⟩

theorem lastElements_argument (h : Sealed line) (v : Text) :
    lastElements (line ++ Quoting.quoteIfNeeded v) =
      Element.ofTokens (Statement.final (Token.ofText line) ++
        [Token.argumentAt line.length v]) :=
  lastElements_append (h.ofText_quoteIfNeeded v) (Token.argumentAt_isArgument _ v).isOperand.1

theorem not_closed_of_partAt? {cursor : Nat} (h : partAt? e cursor = none) (hparts : e.parts ≠ [])
    (hstop : e.stop = cursor) : ¬ e.Closed := by
  intro hclosed
  have hlast := hclosed _ (List.getLast?_eq_getLast_of_ne_nil hparts)
  have hnone := List.filter_eq_nil_iff.mp (List.getLast?_eq_none_iff.mp h) _
    (List.getLast_mem hparts)
  have hle : (e.parts.getLast hparts).start ≤ (e.parts.getLast hparts).stop := Nat.le_add_right _ _
  simp only [Bool.and_eq_true, decide_eq_true_eq] at hnone
  omega

theorem lastElements_new (helements : elementsAt line line.length = before ++ [e])
    (hprevious : before.getLast? = some previous) (hp : e.isParameter = false)
    (hpart : partAt? e line.length = none) (hsealed : Sealed line)
    (hclosed : e.parts = [] → previous.Closed) (v : Text) :
    ∃ e', lastElements (line ++ Quoting.quoteIfNeeded v) = before ++ [e'] ∧
      e'.EndsIn (Token.argumentAt line.length v) := by
  have hargument := argumentAt_continuesList line.length v
  rw [lastElements_argument hsealed]
  rcases lastElements_cases helements (by simp [hp]) with ⟨hbefore, rfl⟩ | ⟨hbefore, hstop⟩
  · -- the empty element was put in, and the one in front waits for nothing
    rw [lastElements_eq] at hbefore
    have hlast : ∀ x ∈ (Element.ofTokens (Statement.final (Token.ofText line))).getLast?,
        x.Closed := by
      rw [hbefore, hprevious]
      rintro _ ⟨⟩
      exact hclosed rfl
    have happend := Element.append_closed (laid_final line) hargument hlast
    rw [hbefore] at happend
    exact ⟨_, happend, rfl, rfl⟩
  · -- the element stands in the line, and only a comma can end it there
    rw [lastElements_eq] at hbefore
    have hmem : e ∈ Element.ofTokens (Statement.final (Token.ofText line)) := by simp [hbefore]
    have hopen := not_closed_of_partAt? hpart (Element.parts_of_mem hmem).1 hstop
    exact Element.append_open (laid_final line) hargument hbefore hopen hstop

theorem lastElements_typed (helements : elementsAt line line.length = before ++ [e])
    (hp : e.isParameter = false) {t : Token} (hpart : partAt? e line.length = some t)
    (hsealed : Sealed (line.take t.start)) (v : Text) :
    ∃ e', lastElements (line.take t.start ++ Quoting.quoteIfNeeded v) = before ++ [e'] ∧
      e'.EndsIn (Token.argumentAt t.start v) ∧ t.stop = line.length := by
  obtain ⟨hmem, hin⟩ := List.mem_filter.mp (List.mem_of_getLast? hpart)
  simp only [Bool.and_eq_true, decide_eq_true_eq] at hin
  rcases lastElements_cases helements (by simp [hp]) with ⟨-, rfl⟩ | ⟨hbefore, -⟩
  · cases hmem
  have hlast : e ∈ Element.ofTokens (Statement.final (Token.ofText line)) := by
    rw [← lastElements_eq, hbefore]
    simp
  obtain ⟨hfinal, hcontinues⟩ := (Element.parts_of_mem hlast).2 t hmem
  rw [hp] at hcontinues
  have hwithin := (laid_final line).within t hfinal
  have hstop : t.stop = line.length := Nat.le_antisymm hwithin.stop_le hin.2
  have hstart : (line.take t.start).length = t.start := by
    have := hwithin.start_lt
    rw [List.length_take]
    omega
  have hline : line.take t.start ++ line.drop t.start = line := List.take_append_drop ..
  have htext : t ∈ Token.ofText (line.take t.start ++ line.drop t.start) := by
    rw [hline]
    exact (Statement.final_sublist _).subset hfinal
  -- what is in front is read the same without the value, so that this is one token more
  have hsplit := hsealed.ofText_eq htext hstart.symm (by rw [hline, hstop])
  rw [hline] at hsplit
  rw [lastElements_append hsplit (Element.continuesList_iff.mp hcontinues).2.1] at hbefore
  obtain ⟨e', he', hends⟩ := Element.replace_value hcontinues
    (argumentAt_continuesList t.start v) hbefore
  have hargument := lastElements_argument hsealed v
  rw [hstart] at hargument
  exact ⟨e', hargument.trans he', hends, hstop⟩

theorem ofText_inline {front : List Token} {t : Token} (h : Token.ofText line = front ++ [t])
    (ht : t.kind = .parameter) (hstop : t.stop = line.length)
    (hname : t.value.length + 1 < t.text.length)
    (hv : (Quoting.quoteIfNeeded v).head? ≠ some ':') :
    ∃ t' : Token, Token.ofText (line.take (t.start + t.value.length + 2) ++
        Quoting.quoteIfNeeded v) = front ++ [t'] ∧
      t'.kind = .parameter ∧ t'.value = t.value ∧ t'.inline = some v := by
  obtain ⟨ps, qs, hscan, rfl, hqs⟩ := List.map_eq_append_iff.mp h
  obtain ⟨q, rfl, rfl⟩ := List.map_eq_singleton_iff.mp hqs
  obtain ⟨q', hall, hq'⟩ := Quoting.scanAll_inline hscan ht hstop hname hv
  refine ⟨Token.ofLexeme q', ?_, hq'⟩
  have htokens := congrArg (List.map Token.ofLexeme) hall
  rw [List.map_append, List.map_map, List.map_map] at htokens
  exact htokens

theorem lastElements_inline (helements : elementsAt line line.length = before ++ [e])
    (hp : e.isParameter = true) (hnamed : e.text ≠ []) (hname : nameEnd e < line.length)
    (hv : (Quoting.quoteIfNeeded v).head? ≠ some ':') :
    ∃ (t : Token) (stop : Nat), lastElements (line.take (nameEnd e + 1) ++
        Quoting.quoteIfNeeded v) = before ++ [.parameter t stop] ∧
      t.value = e.text ∧ t.inline = some v ∧ e.stop = line.length := by
  rcases lastElements_cases helements fun _ => hnamed with ⟨-, rfl⟩ | ⟨hbefore, hstop⟩
  · cases hp
  have hmem : e ∈ Element.ofTokens (Statement.final (Token.ofText line)) := by
    rw [← lastElements_eq, hbefore]
    simp
  have hclosed := Element.closed_of_isParameter hmem hp
  have hparts := (Element.parts_of_mem hmem).2
  cases e with
  | value => cases hp
  | parameter t stop =>
    obtain rfl : stop = line.length := hstop
    have hend : t.stop = line.length := hclosed t rfl
    obtain ⟨hin, hkind⟩ := hparts t (List.mem_singleton_self t)
    rw [if_pos hp] at hkind
    obtain ⟨front, htext⟩ := (Token.laid_scanAll line).exists_front
      ((Statement.final_sublist _).subset hin) hend
    rw [lastElements_append htext (by simp [hkind]),
      Element.ofTokens_append_parameter _ hkind] at hbefore
    obtain ⟨rfl, -⟩ := List.append_inj' hbefore rfl
    have hnameEnd : nameEnd (.parameter t line.length) = t.start + 1 + t.value.length := by
      rw [nameEnd, Element.text_parameter]
      rfl
    rw [hnameEnd] at hname ⊢
    obtain ⟨t', htext', hkind', hvalue, hinline⟩ := ofText_inline htext hkind hend
      (by simp only [Token.stop] at hend; omega) hv
    refine ⟨t', t'.stop, ?_, by rw [hvalue, Element.text_parameter], hinline, rfl⟩
    rw [show t.start + 1 + t.value.length + 1 = t.start + t.value.length + 2 by omega,
      lastElements_append htext' (by simp [hkind']), Element.ofTokens_append_parameter _ hkind']

theorem accept_of_stop {start length : Nat} (h : line.length ≤ start + length) (text : Text) :
    accept line start length text = line.take start ++ text := by
  rw [accept, List.drop_eq_nil_of_le h, List.append_nil]

/-- A value that fits becomes that of the last element, in the role of the old one. -/
theorem lastElements_accept {span : ValueSpan}
    (helements : elementsAt line line.length = before ++ [e])
    (hprevious : before.getLast? = some previous) (hat : ValueAt line line.length previous e span)
    (hfits : Fits line v previous e) :
    ∃ e', lastElements (accept line span.start span.length (Quoting.quoteIfNeeded v)) =
        before ++ [e'] ∧ Element.SameRole e e' ∧
      (e'.isParameter = true → e'.inline.isSome = true) ∧ (Binding.given e').EndsIn v := by
  have hvalue {start : Nat} {e' : Element} (hp : e.isParameter = false)
      (h : e'.EndsIn (Token.argumentAt start v)) : Element.SameRole e e' ∧
        (e'.isParameter = true → e'.inline.isSome = true) ∧ (Binding.given e').EndsIn v := by
    have hgiven := Binding.given_of_endsIn h (Token.argumentAt_isArgument start v)
    rw [Token.argumentAt_value] at hgiven
    exact ⟨⟨hp.trans h.1.symm, by simp [hp]⟩, by simp [h.1], hgiven⟩
  cases hat with
  | member hname =>
    rw [hfits.detached] at hname
    cases hname
  | inline hp hname =>
    obtain ⟨t, stop, hlast, hname', hinline, hstop⟩ := lastElements_inline helements hp
      (hfits.named hp) hname (hfits.colon hp)
    simp only [inlineSpan]
    rw [accept_of_stop (by omega), hlast]
    refine ⟨_, rfl, ⟨hp, fun _ => ?_⟩, fun _ => ?_, .inl ?_⟩
    · rw [Element.text_parameter, hname']
    · rw [Element.inline, hinline]
      rfl
    · simp only [Binding.given, Element.inline, hinline]
      exact Binding.inlineValue_text (hfits.automatic hp)
  | part hp =>
    have hsealed := hfits.apart hp
    cases hpart : partAt? e line.length with
    | none =>
      have hspan : partSpan line e line.length = ⟨line.length, 0, []⟩ := by
        simp only [partSpan, hpart]
      rw [hspan] at hsealed ⊢
      rw [List.take_length] at hsealed
      obtain ⟨e', hlast, hends⟩ := lastElements_new helements hprevious hp hpart hsealed
        hfits.closed v
      rw [accept_of_stop (Nat.le_refl _), List.take_length, hlast]
      exact ⟨e', rfl, hvalue hp hends⟩
    | some t =>
      have hspan : partSpan line e line.length =
          ⟨t.start, t.text.length, wordBefore line (some t) line.length⟩ := by
        simp only [partSpan, hpart]
      rw [hspan] at hsealed ⊢
      obtain ⟨e', hlast, hends, hstop⟩ := lastElements_typed helements hp hpart hsealed v
      rw [accept_of_stop (Nat.le_of_eq hstop.symm), hlast]
      exact ⟨e', rfl, hvalue hp hends⟩

theorem text_ne_nil_of_mem (h : e ∈ lastElements line) (hp : e.isParameter = true) :
    e.text ≠ [] := by
  rw [lastElements_eq] at h
  refine Element.text_ne_nil_of_mem (s := line) (fun t ht => ?_) h hp
  exact List.mem_append_left _ ((Statement.final_sublist _).subset ht)

end Ends

def lastBinding (context : Context σ) (line : Text) (cursor : Int) : Binding :=
  Binding.bindInvocation (lastElements line) cursor (some context.registry.describe)
    (some context.types)

/-- At the end of a line, on the last of its elements, the provider of the parameter in use was
asked. -/
structure Asked (context : Context σ) (line : Text) (request : PoolRequest)
    (previous e : Element) (key : Text) (provider : Provider σ) : Prop where
  elements : ∃ before, elementsAt line line.length = before ++ [previous, e]
  inUse : (bindingAt ⟨context.registry, context.types⟩ line line.length).inUse = some (.name key)
  declared : ∃ command c p word, (elementsAt line line.length).head? = some command ∧
    context.registry.get? command.text = some c ∧ c.parameter? key = some p ∧
    c.completer? p.name = some provider ∧ request = requestFor context c p
      (bindingAt ⟨context.registry, context.types⟩ line line.length) word

/-- What a provider supplies as a text for the parameter in use is inserted as a text that, where it
fits, that parameter is then bound to. -/
theorem complete_accepted {request : PoolRequest}
    (hrequest : (complete context line line.length).request = some request)
    (hclean : (complete context line line.length).diagnostics = []) :
    ∃ (previous e : Element) (key : Text) (provider : Provider σ),
      Asked context line request previous e key provider ∧
      ∀ candidate ∈ (complete context line line.length).candidates,
        ∃ entry ∈ (Pool.get provider request context.state context.timeout none).1,
          ∀ v, entry.value = .text v → candidate.insertion = Quoting.quoteIfNeeded v ∧
            (Fits line v previous e → ∀ cursor : Int, ∃ a : Argument,
              (lastBinding context (accept line (complete context line line.length).start
                (complete context line line.length).length candidate.insertion)
                cursor).named.get? key = some a ∧ a.EndsIn v) := by
  obtain ⟨before, e, helements, hc, hend⟩ := elementsAt_end line
  obtain ⟨command, previous, hhead, hlast, heq⟩ := complete_argument helements hc hrequest
  rw [heq] at hrequest hclean ⊢
  obtain ⟨span, result, hat, hoffered, hresult⟩ := argument_offered hrequest
  rw [hresult] at hclean ⊢
  obtain ⟨herrors, -⟩ := List.append_eq_nil_iff.mp hclean
  have hbefore : before ≠ [] := by
    rintro rfl
    cases hhead
  have hheads (x : Element) : (before ++ [x]).head? = some command := by
    rw [List.head?_append, hhead]
    rfl
  have hbinding : bindingAt ⟨context.registry, context.types⟩ line line.length =
      Binding.bindInvocation (before ++ [e]) line.length (some context.registry.describe)
        (some context.types) := by
    rw [bindingAt, helements]
  cases hoffered with
  | @intro c key p provider pool noted hcommand hkey hattached hp hprovider hasked hpool =>
    have hdescribe : context.registry.describe command.text = .ok c.parameters := by
      simp only [Registry.describe, hcommand]
    refine ⟨previous, e, key, provider, ⟨?_, ?_, ?_⟩, fun candidate hcandidate => ?_⟩
    · obtain ⟨front, rfl⟩ := List.getLast?_eq_some_iff.mp hlast
      exact ⟨front, by rw [helements, List.append_assoc]; rfl⟩
    · rw [hbinding, hkey]
    · exact ⟨command, c, p, span.word, helements ▸ hheads e, hcommand, hp, hprovider,
        hbinding ▸ hasked⟩
    · obtain ⟨candidates, hranked, hin⟩ := mem_offering rfl hcandidate
      obtain ⟨-, entry, hentry, text, htext, hinsertion⟩ := Ranking.exists_of_mem_rank hranked hin
      simp only [withPool, offering_start, offering_length, nothing]
      refine ⟨entry, by rwa [hpool], fun v hv => ?_⟩
      have hquoted : candidate.insertion = Quoting.quoteIfNeeded v := by
        simp only [PoolEntry.insertion, hv, Datum.print, Except.ok.injEq] at htext
        simp only [hinsertion, if_true, htext]
      refine ⟨hquoted, fun hfits cursor => ?_⟩
      obtain ⟨e', haccept, hrole, hinline, hends⟩ := lastElements_accept helements hlast hat hfits
      refine ⟨_, ?_, hends⟩
      rw [Binding.bindInvocation_eq (hheads e) hdescribe] at herrors hkey hattached
      rw [hquoted, lastBinding, haccept, Binding.bindInvocation_eq (hheads e') hdescribe]
      -- a parameter with no name would be amiss without a diagnostic
      refine Binding.bind_named_replace hbefore (fun x hx hparameter => ?_) hrole hinline
        (Element.indexAt?_append_singleton hc) herrors hkey hattached cursor
      rcases List.mem_append.mp hx with hx | hx
      · have hin : x ∈ lastElements line := by
          rcases lastElements_cases helements hfits.named with ⟨h, -⟩ | ⟨h, -⟩
          · rwa [h]
          · exact h ▸ List.mem_append_left _ hx
        exact text_ne_nil_of_mem hin hparameter
      · obtain rfl := List.mem_singleton.mp hx
        exact hfits.named hparameter

def supplying : Command (Unit × List Call) :=
  { placing with
    parameters := [⟨['P'], [], none, false, .text, [], []⟩,
      ⟨['Q'], [], some 0, false, .text, [], []⟩]
    completers := [(['Q'], fun _ _ => .finite [.plain (.text "v w".toList)] .finished)] }

def supplyingContext : Context (Unit × List Call) :=
  ⟨(Registry.empty.register supplying).1, TypeRegistry.empty, [], ((), []), .whole 1, 50⟩

theorem complete_accepted_item :
    (complete supplyingContext "Cmd -P x y,v".toList 12).request.isSome = true ∧
      (complete supplyingContext "Cmd -P x y,v".toList 12).diagnostics = [] ∧
      (complete supplyingContext "Cmd -P x y,v".toList 12).candidates.map (·.insertion) =
        ["'v w'".toList] ∧
      ∀ cursor, ∃ a, (lastBinding supplyingContext "Cmd -P x y,'v w'".toList cursor).named.get?
        ['Q'] = some a ∧ a.EndsIn "v w".toList := by
  have hasked : (complete supplyingContext "Cmd -P x y,v".toList 12).request.isSome = true := by
    decide +kernel
  have hclean : (complete supplyingContext "Cmd -P x y,v".toList 12).diagnostics = [] :=
    List.isEmpty_iff.mp (by decide +kernel)
  have hcandidates : (complete supplyingContext "Cmd -P x y,v".toList 12).candidates.map
      (·.insertion) = ["'v w'".toList] := by decide +kernel
  refine ⟨hasked, hclean, hcandidates, ?_⟩
  obtain ⟨request, hrequest⟩ := Option.isSome_iff_exists.mp hasked
  obtain ⟨previous, e, key, provider, ⟨⟨before, helements⟩, hkey, hdeclared⟩, hall⟩ :=
    complete_accepted hrequest hclean
  have hline : elementsAt "Cmd -P x y,v".toList 12 =
      [.value [⟨.bare, "Cmd".toList, "Cmd".toList, 0, none, true⟩] 0 3,
        .parameter ⟨.parameter, "-P".toList, ['P'], 4, none, true⟩ 6] ++
      [.value [⟨.bare, ['x'], ['x'], 7, none, true⟩] 7 8,
        .value [⟨.bare, ['y'], ['y'], 9, none, true⟩,
          ⟨.bare, ['v'], ['v'], 11, none, true⟩] 9 12] := by
    decide +kernel
  obtain ⟨-, hends⟩ := List.append_inj' (helements.symm.trans hline) rfl
  obtain ⟨rfl, rfl⟩ : previous = _ ∧ e = _ := by simpa using hends
  obtain rfl : key = ['Q'] := by
    have hinUse : (bindingAt ⟨supplyingContext.registry, supplyingContext.types⟩
      "Cmd -P x y,v".toList 12).inUse = some (.name ['Q']) := by decide +kernel
    exact InUse.name.inj (Option.some.inj (hkey.symm.trans hinUse))
  obtain ⟨command, c, p, word, hcommand, hc, -, hprovider, rfl⟩ := hdeclared
  obtain rfl := Option.some.inj (hcommand.symm.trans (congrArg List.head? hline))
  obtain rfl : c = supplying :=
    Option.some.inj (hc.symm.trans (Registry.get?_register (c := supplying) rfl))
  obtain ⟨⟨name, provider⟩, hfound, rfl⟩ := Option.map_eq_some_iff.mp hprovider
  obtain ⟨-, rfl⟩ := Prod.mk.inj (List.mem_singleton.mp (List.mem_of_find?_eq_some hfound))
  obtain ⟨candidate, hcandidate, hinsertion⟩ := List.mem_map.mp
    (hcandidates ▸ List.mem_singleton_self "'v w'".toList)
  obtain ⟨entry, hentry, hvalue⟩ := hall candidate hcandidate
  obtain rfl := List.mem_singleton.mp hentry
  have hfits := (hvalue _ rfl).2 ⟨rfl, nofun, nofun, nofun, fun _ => ?_, nofun⟩
  · have haccept : accept "Cmd -P x y,v".toList
        (complete supplyingContext "Cmd -P x y,v".toList 12).start
        (complete supplyingContext "Cmd -P x y,v".toList 12).length "'v w'".toList =
          "Cmd -P x y,'v w'".toList := by decide +kernel
    rw [hinsertion] at hfits
    rwa [← haccept]
  · exact .of_separator (t := ⟨.operator, [','], [','], 10, none, true⟩) (c := ',')
      (by decide +kernel) ⟨rfl, rfl⟩ rfl rfl

/-- Behind a comma and a blank the list of the first parameter waits for its next value. What is
offered there is a value of the second parameter, and the list takes it. -/
theorem complete_waiting_list :
    (complete supplyingContext "Cmd -P x, ".toList 10).request.isSome = true ∧
      (complete supplyingContext "Cmd -P x, ".toList 10).diagnostics = [] ∧
      (complete supplyingContext "Cmd -P x, ".toList 10).candidates.map
        (fun c => (c.insertion, c.category)) = [("'v w'".toList, .parameterValue)] ∧
      (bindingAt ⟨supplyingContext.registry, supplyingContext.types⟩ "Cmd -P x, ".toList 10).inUse =
        some (.name ['Q']) ∧
      accept "Cmd -P x, ".toList (complete supplyingContext "Cmd -P x, ".toList 10).start
        (complete supplyingContext "Cmd -P x, ".toList 10).length "'v w'".toList =
          "Cmd -P x, 'v w'".toList ∧
      ¬ ∃ a, (lastBinding supplyingContext "Cmd -P x, 'v w'".toList 15).named.get? ['Q'] = some a ∧
        a.EndsIn "v w".toList := by
  refine ⟨by decide +kernel, List.isEmpty_iff.mp (by decide +kernel), by decide +kernel,
    by decide +kernel, by decide +kernel, ?_⟩
  rintro ⟨a, ha, -⟩
  have hnone : ((lastBinding supplyingContext "Cmd -P x, 'v w'".toList 15).named.get?
      ['Q']).isNone = true := by decide +kernel
  rw [ha] at hnone
  cases hnone

end Completion

end CommandShell
