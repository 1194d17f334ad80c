import CommandShell.Proofs.Binding.Claims
import CommandShell.Proofs.Completion.Member
import CommandShell.Proofs.Completion.Rename
import CommandShell.Proofs.Text.Lowercase

/-!
The parameter names that are offered, and what the line is bound to once one of them has taken the
place of the name under the cursor.
-/

set_option autoImplicit false

namespace CommandShell

theorem Sign.point_notMem_of_isParameterName {name : Text} (h : isParameterName name = true) :
    '.' ∉ name := fun hmem => by
  have hchar := isParameterChar_of_mem h '.' hmem
  revert hchar
  decide +kernel

namespace Binding

variable {declared : List Parameter} {types : Option TypeRegistry} {before after es : List Element}
  {e : Element} {p : Parameter}

/-- A parameter at an offset is read as a declared one and bound to it, and nothing is noted
there. -/
def BindsAt (declared : List Parameter) (types : Option TypeRegistry) (es : List Element)
    (offset : Nat) (p : Parameter) : Prop :=
  ∃ front parameter rest value more, es = front ++ parameter :: rest ∧
    parameter.isParameter = true ∧ parameter.start = offset ∧
    readings declared types es = readings declared types front ++ .declared p value :: more ∧
    ∀ cursor, (bind es cursor declared types).named.get? p.name = some value ∧
      ∀ d ∈ (bind es cursor declared types).errors, d.offset ≠ some offset

/-- A parameter that is typed in full is bound just when nothing in front has claimed it. -/
theorem bindsAt_iff (types : Option TypeRegistry) (hd : Parameter.Apart declared)
    (hpoint : ∀ q ∈ declared, '.' ∉ q.name) (hb : before ≠ []) (he : e.isParameter = true)
    (hp : p ∈ declared) (htext : e.text = p.name) (hname : p.name ≠ [])
    (hstarts : (before ++ e :: after).Pairwise fun x y => x.start < y.start) :
    BindsAt declared types (before ++ e :: after) e.start p ↔
      p ∈ (gathered declared types before).available.map (·.2) := by
  obtain ⟨r, more, hreadings, hiff, hbound⟩ :=
    bind_full_name types hd hpoint hb he hp htext hname hstarts
  constructor
  · rintro ⟨front, parameter, rest, value, later, hes, -, hstart, hread, -⟩
    have hfront := Element.filter_starts hstarts
    rw [hes, ← hstart, Element.filter_starts (hes ▸ hstarts)] at hfront
    subst hfront
    rw [hread] at hreadings
    exact hiff.mp ⟨value, (List.cons.inj (List.append_cancel_left hreadings)).1.symm⟩
  · intro h
    obtain ⟨value, rfl⟩ := hiff.mpr h
    exact ⟨before, e, after, value, more, rfl, he, rfl, hreadings, hbound value rfl⟩

theorem foldl_leftBy_map_dashAsParameter (cursor : Nat) (es : List Element)
    (available : Entries Text Parameter) :
    (typedNames (es.map (Completion.dashAsParameter cursor))).foldl leftBy available =
      (typedNames es).foldl leftBy available := by
  have hone (e : Element) (es : List Element) : typedNames (e :: es) =
      typedNames [e] ++ typedNames es := typedNames_append [e] es
  induction es generalizing available with
  | nil => rfl
  | cons e es ih =>
    rw [List.map_cons, hone, hone e es, List.foldl_append, List.foldl_append, ih]
    fun_cases Completion.dashAsParameter cursor e with
    | case1 t start stop c htext hc =>
      have hnames : typedNames [.parameter { t with kind := .parameter, value := [] } stop] =
          [[]] := by
        simp [typedNames, Element.isParameter]
      rw [hnames]
      rfl
    | _ => rfl

theorem available_map_dashAsParameter (declared : List Parameter) (types : Option TypeRegistry)
    (cursor : Nat) (es : List Element) :
    (gathered declared types (es.map (Completion.dashAsParameter cursor))).available =
      (gathered declared types es).available := by
  rw [gathered_available_eq, gathered_available_eq, ← List.map_drop,
    foldl_leftBy_map_dashAsParameter]

end Binding

theorem Parameter.name_eq_of_beq {p q : Parameter} (h : (p == q) = true) : p.name = q.name := by
  obtain ⟨name, _, _, _, _, _, _⟩ := p
  obtain ⟨other, _, _, _, _, _, _⟩ := q
  have hname : (name == other) = true := (Bool.and_eq_true_iff.mp h).1
  exact eq_of_beq hname

namespace Completion

open Binding

variable {σ : Type} {context : Context σ} {line : Text} {x : Candidate} {p : Parameter}
  {c : Command σ} {before after : List Element} {e command previous : Element} {cursor : Nat}

theorem memberNames_category {length : Nat}
    (h : x ∈ (memberNames context line previous e length cursor).candidates) :
    x.category = .attachedMember := by
  revert h
  fun_cases memberNames context line previous e length cursor with
  | case1 | case2 => rintro ⟨⟩
  | case3 =>
    intro h
    obtain ⟨candidates, hranked, hx⟩ := mem_offering rfl h
    exact (Ranking.exists_of_mem_rank hranked hx).1

theorem argument_name {elements : List Element}
    (h : x ∈ (argument context line cursor elements command previous e).candidates)
    (hx : x.category = .parameterName) :
    let result := argument context line cursor elements command previous e
    let b := bindInvocation elements cursor (some context.registry.describe) (some context.types)
    e.isParameter = true ∧ cursor ≤ nameEnd e ∧ result.start = e.start ∧
      result.length = nameEnd e - e.start ∧
      x ∈ (parameterNames context line e cursor (context.registry.get? command.text) b).candidates
      := by
  have hvalues {c : Option (Command σ)} {b : Binding} {span : ValueSpan} :
      x ∉ (values context c b span).candidates := fun h => by
    rw [values_category h] at hx
    cases hx
  simp only [argument] at h ⊢
  split at h
  · split at h
    · rw [memberNames_category h] at hx
      cases hx
    · exact absurd h hvalues
  · split at h
    · rename_i he
      split at h
      · rename_i hcursor
        simp only [if_pos he, if_pos hcursor]
        exact ⟨he, hcursor, parameterNames_start .., parameterNames_length .., h⟩
      · exact absurd h hvalues
    · exact absurd h hvalues

theorem completeAt_cases (context : Context σ) (line : Text) (cursor : Nat) :
    completeAt context line cursor = nothing cursor 0 ∨
      ∃ before e after, elementsAt line cursor = before ++ e :: after ∧
        e.contains cursor = true ∧
        Element.indexAt? (before ++ e :: after) cursor = some before.length ∧
        (completeAt context line cursor = commandNames context line e cursor ∨
          completeAt context line cursor = helpTargets context line e cursor ∨
          ∃ command previous, before.head? = some command ∧
            completeAt context line cursor =
              argument context line cursor (before ++ e :: after) command previous e) := by
  unfold completeAt elementsAt
  dsimp only
  generalize (withCursorElement (Element.ofTokens (Statement.at? (Token.scan line) cursor))
    cursor).map (dashAsParameter cursor) = elements
  cases hindex : Element.indexAt? elements cursor with
  | none => exact .inl rfl
  | some index =>
    obtain ⟨e, he, hc⟩ := Element.contains_of_indexAt? hindex
    obtain ⟨hlt, rfl⟩ := List.getElem?_eq_some_iff.mp he
    cases elements with
    | nil => cases he
    | cons command rest =>
      have hsplit : command :: rest = (command :: rest).take index ++
          (command :: rest)[index] :: (command :: rest).drop (index + 1) := by
        rw [← List.drop_eq_getElem_cons hlt, List.take_append_drop]
      have hlength : ((command :: rest).take index).length = index :=
        List.length_take_of_le (Nat.le_of_lt hlt)
      have hprevious : (command :: rest)[index - 1]? = some (command :: rest)[index - 1] :=
        List.getElem?_eq_getElem (by omega)
      refine .inr ⟨_, _, _, hsplit, hc, by rw [← hsplit, hlength, hindex], ?_⟩
      rw [← hsplit]
      simp only [he, hprevious]
      split
      · exact .inl rfl
      · rename_i hzero
        split
        · exact .inr (.inl rfl)
        · refine .inr (.inr ⟨command, _, ?_, rfl⟩)
          rw [List.head?_take, if_neg hzero, List.head?_cons]

theorem exists_parameter_of_offered (hx : x ∈ (completeAt context line cursor).candidates)
    (hcategory : x.category = .parameterName) :
    ∃ before e after command, elementsAt line cursor = before ++ e :: after ∧
      before.head? = some command ∧ e.isParameter = true ∧ e.contains cursor = true ∧
      Element.indexAt? (before ++ e :: after) cursor = some before.length ∧ cursor ≤ nameEnd e ∧
      (completeAt context line cursor).start = e.start ∧
      (completeAt context line cursor).length = nameEnd e - e.start ∧
      x ∈ (parameterNames context line e cursor (context.registry.get? command.text)
        (bindInvocation (before ++ e :: after) cursor (some context.registry.describe)
          (some context.types))).candidates := by
  rcases completeAt_cases context line cursor with
    heq | ⟨before, e, after, helements, hc, hindex, heq | heq | ⟨command, previous, hhead, heq⟩⟩
  · rw [heq] at hx
    cases hx
  · rw [heq] at hx
    rw [commandNames_category hx] at hcategory
    cases hcategory
  · rw [heq] at hx
    rw [helpTargets_category hx] at hcategory
    cases hcategory
  · rw [heq] at hx ⊢
    obtain ⟨he, hcursor, hstart, hlength, hoffered⟩ := argument_name hx hcategory
    exact ⟨before, e, after, command, helements, hhead, he, hc, hindex, hcursor, hstart, hlength,
      hoffered⟩

theorem mem_offered {b : Binding} (h : p ∈ offered c b) :
    p ∈ b.available ∨ ∃ key, b.inUse = some (.name key) ∧ c.parameter? key = some p := by
  rcases List.mem_append.mp h with h | h
  · exact .inl h
  · obtain ⟨hcurrent, -⟩ := Option.filter_eq_some_iff.mp (Option.mem_toList.mp h)
    refine .inr ?_
    split at hcurrent
    · rename_i key hkey
      exact ⟨key, hkey, hcurrent⟩
    · cases hcurrent

/-- What is offered is the full name of a parameter that the command still accepts, or of the one
that the element has claimed. -/
theorem parameterNames_offers {declaring : Option (Command σ)} {b : Binding}
    (h : x ∈ (parameterNames context line e cursor declaring b).candidates) :
    ∃ c, declaring = some c ∧ ∃ p ∈ c.parameters, ∃ q ∈ offered c b, q.name = p.name ∧
      x.insertion = '-' :: p.name := by
  cases declaring with
  | none => cases h
  | some c =>
    obtain ⟨candidates, hranked, hx⟩ := mem_offering rfl h
    obtain ⟨-, entry, hentry, text, htext, hinsertion⟩ := Ranking.exists_of_mem_rank hranked hx
    obtain ⟨p, hp, rfl⟩ := List.mem_map.mp hentry
    obtain ⟨hdeclared, hoffered⟩ := List.mem_filter.mp hp
    obtain ⟨q, hq, hsame⟩ := List.contains_iff_exists_mem_beq.mp hoffered
    obtain rfl := Except.ok.inj htext
    rw [if_neg (by simp)] at hinsertion
    exact ⟨c, rfl, p, hdeclared, q, hq, (Parameter.name_eq_of_beq hsame).symm, hinsertion⟩

/-- The parameter that the element has claimed is one that was available to it, or the name is typed
in full. -/
theorem available_of_offered {types : Option TypeRegistry} (hd : Parameter.Apart c.parameters)
    (hpoint : ∀ q ∈ c.parameters, '.' ∉ q.name) (hb : before ≠ []) (he : e.isParameter = true)
    (hindex : Element.indexAt? (before ++ e :: after) cursor = some before.length)
    (hp : p ∈ offered c (bind (before ++ e :: after) cursor c.parameters types)) :
    p ∈ (gathered c.parameters types before).available.map (·.2) ∨
      Text.lower e.text = Text.lower p.name := by
  rcases mem_offered hp with hp | ⟨key, hkey, hcurrent⟩
  · exact .inl (mem_available_of_bind hb hp)
  obtain ⟨r, consumed, noted, hr⟩ := exists_reads ⟨c.parameters, types, none⟩
    (gathered c.parameters types before) e after
  rw [bind_inUse_of_parameter hb he hindex hr] at hkey
  obtain rfl : r.key = key := by simpa using hkey
  have hdeclared := List.mem_of_find?_eq_some hcurrent
  have hname : Text.lower p.name = Text.lower r.key := by simpa using List.find?_some hcurrent
  cases hr with
  | @declared q value _ hfound _ =>
    have hq : q ∈ (gathered c.parameters types before).available.map (·.2) :=
      Pass.found_mem (by rw [hfound]; exact List.mem_singleton_self q)
    have hparted := Steps.parted hd.nodup_lower_names hpoint
      (steps_to_parameter c.parameters types hb he after)
      (Pass.parted_start hd.nodup_lower_names)
    rw [hd.eq_of_lower_name hdeclared (hparted.mem_of_available hq) hname]
    exact .inl hq
  | @member m =>
    have hmember : '.' ∈ Text.lower m.name :=
      Text.point_mem_lower.mpr (by simp [AttachedMatch.name])
    exact absurd (Text.point_mem_lower.mp (hname ▸ hmember)) (hpoint p hdeclared)
  | unknown | ambiguous => exact .inr hname.symm

/-- Every parameter name that is offered is the full name of a declared parameter, in the place of
the name under the cursor. Where names are apart and can be read, and the dash stays apart from what
is in front of it, the parameter there is bound to it just when nothing in front has claimed it. Of
the parameters that something has claimed only that one is offered whose name is typed already. -/
theorem complete_parameterName {position : Int}
    (hx : x ∈ (complete context line position).candidates)
    (hcategory : x.category = .parameterName) :
    let result := complete context line position
    let cursor := min position.toNat line.length
    let new := accept line result.start result.length x.insertion
    ∃ (before after : List Element) (e command : Element) (c : Command σ) (p : Parameter),
      elementsAt line cursor = before ++ e :: after ∧ e.isParameter = true ∧
      e.start = result.start ∧ before.head? = some command ∧
      context.registry.get? command.text = some c ∧ p ∈ c.parameters ∧
      x.insertion = '-' :: p.name ∧
      (Parameter.Apart c.parameters → (∀ q ∈ c.parameters, Sign.isParameterName q.name = true) →
        (line.drop result.start).head? = some '-' ∨ Sealed (line.take result.start) →
        ∃ front, before = front.map (dashAsParameter cursor) ∧
          (command.text ≠ [] → front.head? = some command) ∧
          let free := (gathered c.parameters (some context.types) front).available.map (·.2)
          (p ∈ free ∨ Text.lower e.text = Text.lower p.name) ∧
          ∀ caret : Nat, result.start ≤ caret → caret ≤ result.start + x.insertion.length →
            (BindsAt c.parameters (some context.types)
              (Element.ofTokens (Statement.at? (Token.scan new) caret)) result.start p ↔
                p ∈ free)) := by
  intro result cursor new
  obtain ⟨before, e, after, command, helements, hhead, he, hc, hindex, hcursor, hstart, hlength,
    hoffered⟩ := exists_parameter_of_offered hx hcategory
  obtain ⟨c, hget, p, hp, q, hclaimed, hsame, hinsertion⟩ := parameterNames_offers hoffered
  refine ⟨before, after, e, command, c, p, helements, he, hstart.symm, hhead, hget, hp, hinsertion,
    fun hd hnames hkept => ?_⟩
  have hpoint : ∀ q ∈ c.parameters, '.' ∉ q.name := fun q hq =>
    Sign.point_notMem_of_isParameterName (hnames q hq)
  have hb : before ≠ [] := by
    rintro rfl
    cases hhead
  have hresult : result.start = e.start := hstart
  rw [hresult] at hkept
  obtain ⟨front, rfl, hall⟩ := elements_rename helements he hc hcursor hkept (hnames p hp)
  refine ⟨front, rfl, fun hcommand => ?_, ?_, fun caret hcaret hend => ?_⟩
  · obtain ⟨typed, htyped, hdash⟩ := Option.map_eq_some_iff.mp (List.head?_map .. ▸ hhead)
    rcases dashAsParameter_cases cursor typed with hsame | ⟨-, hnone⟩
    · rw [htyped, ← hdash, hsame]
    · exact absurd (hdash ▸ hnone) hcommand
  · have hdescribe : context.registry.describe command.text = .ok c.parameters := by
      simp only [Registry.describe, hget]
    have hheads : (front.map (dashAsParameter cursor) ++ e :: after).head? = some command := by
      rw [List.head?_append, hhead]
      rfl
    rw [bindInvocation_eq hheads hdescribe] at hclaimed
    have havailable := available_of_offered hd hpoint hb he hindex hclaimed
    rw [available_map_dashAsParameter] at havailable
    refine havailable.imp (fun hq => ?_) fun hname => by rwa [← hsame]
    have hdeclared : q ∈ c.parameters := mem_declared_of_gathered hd.nodup_lower_names hq
    rwa [hd.eq_of_lower_name hdeclared hp (congrArg Text.lower hsame)] at hq
  · have hnew : new = accept line e.start (nameEnd e - e.start) ('-' :: p.name) := by
      simp only [new, result, hinsertion]
      rw [← hlength, ← hstart]
      rfl
    rw [hresult] at hcaret hend ⊢
    obtain ⟨t, rest, helements', htstart, hvalue⟩ := hall caret hcaret (hinsertion ▸ hend)
    have hstarts := Element.starts_ofTokens (Statement.laid_at? new caret)
    rw [hnew] at hstarts ⊢
    rw [helements'] at hstarts ⊢
    have hfront : front ≠ [] := fun h => hb (by rw [h]; rfl)
    have hname : p.name ≠ [] := by
      intro h
      have := hnames p hp
      rw [h] at this
      cases this
    have hiff := bindsAt_iff (some context.types) hd hpoint hfront rfl hp
      ((Element.text_parameter t t.stop).trans hvalue) hname hstarts
    rwa [show (Element.parameter t t.stop).start = e.start from htstart] at hiff

def placingContext : Context (Unit × List Call) :=
  ⟨placingShell.registry, placingShell.types, [], ((), []), .whole 1, 50⟩

theorem complete_parameterName_switch :
    let line := "Cmd x -Fo y".toList
    let result := complete placingContext line 8
    result.candidates.map (fun x => (x.insertion, x.category)) =
        [("-Foo".toList, .parameterName)] ∧
      accept line result.start result.length "-Foo".toList = "Cmd x -Foo y".toList ∧
      ∃ p ∈ placing.parameters, p.name = "Foo".toList ∧
        ∀ caret : Nat, 6 ≤ caret → caret ≤ 10 →
          BindsAt placing.parameters (some placingContext.types)
            (Element.ofTokens (Statement.at? (Token.scan "Cmd x -Foo y".toList) caret)) 6 p := by
  intro line result
  have hcandidates : result.candidates.map (fun x => (x.insertion, x.category)) =
      [("-Foo".toList, .parameterName)] := by decide +kernel
  have hstart : result.start = 6 := by decide +kernel
  have hnew : accept line result.start result.length "-Foo".toList = "Cmd x -Foo y".toList := by
    decide +kernel
  refine ⟨hcandidates, hnew, ?_⟩
  obtain ⟨x, hx, hpair⟩ := List.mem_map.mp (hcandidates ▸ List.mem_cons_self)
  obtain ⟨hinsertion, hcategory⟩ := Prod.mk.inj hpair
  obtain ⟨before, after, e, command, c, p, helements, he, -, hhead, hget, hp, hname, hall⟩ :=
    complete_parameterName hx hcategory
  rw [hinsertion] at hname
  obtain hname : p.name = "Foo".toList := (List.cons.inj hname).2.symm
  have hline : elementsAt line 8 =
      [.value [⟨.bare, "Cmd".toList, "Cmd".toList, 0, none, true⟩] 0 3,
        .value [⟨.bare, ['x'], ['x'], 4, none, true⟩] 4 5,
        .parameter ⟨.parameter, "-Fo".toList, "Fo".toList, 6, none, true⟩ 9,
        .value [⟨.bare, ['y'], ['y'], 10, none, true⟩] 10 11] := by
    decide +kernel
  obtain rfl : c = placing := by
    have hcommand := congrArg List.head? (helements.symm.trans hline)
    rw [List.head?_append, hhead] at hcommand
    obtain rfl := Option.some.inj hcommand
    exact Option.some.inj (hget.symm.trans (Registry.get?_register (c := placing) rfl))
  have hd : Parameter.Apart placing.parameters := by
    unfold Parameter.Apart List.Disjoint
    decide +kernel
  obtain ⟨front, -, -, hfree, hbinds⟩ := hall hd (by decide +kernel) (.inl (by decide +kernel))
  have htyped : Text.lower e.text ≠ Text.lower p.name := by
    have hall : ∀ e ∈ elementsAt line 8, e.isParameter = true →
        Text.lower e.text ≠ Text.lower "Foo".toList := by
      rw [hline]
      decide +kernel
    rw [hname]
    exact hall e (by
      have : e ∈ before ++ e :: after := by simp
      exact helements ▸ this) he
  refine ⟨p, hp, hname, fun caret hcaret hend => ?_⟩
  have hiff := hbinds caret (hstart ▸ hcaret) (by
    rw [hinsertion]
    exact hstart ▸ hend)
  rw [hinsertion] at hiff
  rw [← hnew, ← hstart]
  exact hiff.mpr (hfree.resolve_right htyped)

/-- A name that is typed in full is offered although another element has claimed the parameter, and
a name behind a dash of another kind that touches a name is offered with a dash that goes on with
that name. -/
theorem complete_parameterName_claimed :
    let twice := "Cmd -Foo -Foo".toList
    let touching := "Cmd -P–Fo".toList
    let declared := placing.parameters
    let types := some placingContext.types
    (complete placingContext twice 13).candidates.map (fun x => (x.insertion, x.category)) =
        [("-Foo".toList, .parameterName)] ∧
      accept twice (complete placingContext twice 13).start
        (complete placingContext twice 13).length "-Foo".toList = twice ∧
      (bind (Element.ofTokens (Statement.at? (Token.scan twice) 13)) (-1) declared types).errors =
        [⟨.duplicateParameter "Foo".toList, some (complete placingContext twice 13).start⟩] ∧
      (∀ p, ¬ BindsAt declared types (Element.ofTokens (Statement.at? (Token.scan twice) 13))
        (complete placingContext twice 13).start p) ∧
      (complete placingContext touching 9).candidates.map (fun x => (x.insertion, x.category)) =
        [("-Foo".toList, .parameterName)] ∧
      accept touching (complete placingContext touching 9).start
        (complete placingContext touching 9).length "-Foo".toList = "Cmd -P-Foo".toList ∧
      ∀ p, ¬ BindsAt declared types
        (Element.ofTokens (Statement.at? (Token.scan "Cmd -P-Foo".toList) 10))
        (complete placingContext touching 9).start p := by
  intro twice touching declared types
  have hnoted : (bind (Element.ofTokens (Statement.at? (Token.scan twice) 13)) (-1) declared
      types).errors = [⟨.duplicateParameter "Foo".toList,
        some (complete placingContext twice 13).start⟩] := by decide +kernel
  have hnone : ∀ e ∈ Element.ofTokens (Statement.at? (Token.scan "Cmd -P-Foo".toList) 10),
      e.start ≠ (complete placingContext touching 9).start := by decide +kernel
  refine ⟨by decide +kernel, by decide +kernel, hnoted, ?_, by decide +kernel, by decide +kernel,
    ?_⟩
  · rintro p ⟨front, parameter, rest, value, more, -, -, -, -, hall⟩
    exact (hall (-1)).2 _ (hnoted ▸ List.mem_singleton_self _) rfl
  · rintro p ⟨front, parameter, rest, value, more, helements, -, hstart, -⟩
    have hmem : parameter ∈ front ++ parameter :: rest := by simp
    exact hnone parameter (helements ▸ hmem) hstart

end Completion

end CommandShell
