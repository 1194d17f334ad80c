import CommandShell.Proofs.Binding.Readings
import CommandShell.Proofs.Element.Name

/-!
When the cursor counts as on a name. A name ends in the last element that it goes to, and all of
this element counts as the name, an inline value in it as well.
-/

set_option autoImplicit false

namespace CommandShell.Binding

/-- A name in an invocation: the element that it begins in, how many elements behind that are
consumed with it, the last element that it goes to, and how it was typed. -/
inductive TypedName (declared : List Parameter) (types : Option TypeRegistry)
    (elements : List Element) : Nat → Nat → Nat → Text → Prop where
  | own {index consumed : Nat} {e : Element} {rest : List Element} {pass : Pass} {r : Reading}
      {noted : List Diagnostic} :
      Steps ⟨declared, types, none⟩ (.first declared elements) ⟨index, e :: rest, pass⟩ →
      e.isParameter = true → Reads ⟨declared, types, none⟩ pass e rest r consumed noted →
      r.member? = none → TypedName declared types elements index consumed index e.text
  | member {index consumed : Nat} {e adjacent : Element} {rest : List Element} {pass : Pass}
      {attached : AttachedMatch} {noted : List Diagnostic} {o m sep : Text} {inline : Option Text} :
      Steps ⟨declared, types, none⟩ (.first declared elements)
        ⟨index, e :: adjacent :: rest, pass⟩ →
      e.isParameter = true →
      Reads ⟨declared, types, none⟩ pass e (adjacent :: rest) (.member attached) consumed noted →
      Owner.split? (e.text ++ adjacent.raw) = some (o, m, inline) → sep ∈ Owner.separators →
      e.text ++ adjacent.raw = o ++ (sep ++ (m ++ Owner.behind inline)) →
      TypedName declared types elements index consumed (index + 1) (o ++ (sep ++ m))

section

variable {declared : List Parameter} {types : Option TypeRegistry} {elements : List Element}
  {index consumed last : Nat} {typed : Text}

theorem TypedName.exists_of_reads {e : Element} {rest : List Element} {pass : Pass} {r : Reading}
    {noted : List Diagnostic}
    (hsteps : Steps ⟨declared, types, none⟩ (.first declared elements) ⟨index, e :: rest, pass⟩)
    (he : e.isParameter = true)
    (hr : Reads ⟨declared, types, none⟩ pass e rest r consumed noted) :
    ∃ last typed, TypedName declared types elements index consumed last typed := by
  cases r with
  | declared => exact ⟨_, _, .own hsteps he hr rfl⟩
  | unknown => exact ⟨_, _, .own hsteps he hr rfl⟩
  | member =>
    have hmember := hr
    cases hmember with
    | member _ hmerge =>
      obtain ⟨adjacent, hhead, -, -, o, m, inline, hsplit⟩ := Owner.exists_split_of_merge hmerge
      obtain ⟨rest, rfl⟩ := List.head?_eq_some_iff.mp hhead
      obtain ⟨-, -, sep, hsep, hspelled⟩ := Owner.split?_eq_some hsplit
      exact ⟨_, _, .member hsteps he hr hsplit hsep hspelled⟩

theorem TypedName.onName {cursor : Int} {c : Nat}
    (h : TypedName declared types elements index consumed last typed)
    (hc : Element.indexAt? elements cursor = some c) (hle : index ≤ c)
    (hge : c ≤ index + consumed) :
    (bind elements cursor declared types).onName = decide (c ≤ last) := by
  have hflag {onName : Bool} {key : Option Text}
      (hrun : Pass.run ⟨declared, types, some c⟩ 1 0 (elements.drop 1) (Pass.start declared) =
        { gathered declared types elements with anchor := some ⟨index, onName, key⟩ }) :
      (bind elements cursor declared types).onName = onName := by
    simp only [bind, hc, hrun, Pass.finish, Option.map_some, Option.getD_some]
  cases h with
  | @own _ _ _ r _ hsteps he hr hown =>
    cases r with
    | member => cases hown
    | declared | unknown => exact hflag (run_reads hsteps he hr hle hge)
  | member hsteps he hr => exact hflag (run_reads hsteps he hr hle hge)

/-- Where a name stands in its text, and that it ends in its last element. What is behind a member
does not touch its name. -/
theorem TypedName.stands {text : Text} {ts : List Token} (hts : ts.Sublist (Token.ofText text))
    (h : TypedName declared types (Element.ofTokens ts) index consumed last typed) :
    ∃ e f, (Element.ofTokens ts)[index]? = some e ∧ (Element.ofTokens ts)[last]? = some f ∧
      typed <+: text.drop (e.start + 1) ∧ e.start + 1 + typed.length ≤ f.stop ∧
      (index < last → ∀ c g, last < c → (Element.ofTokens ts)[c]? = some g →
        e.start + 1 + typed.length < g.start) := by
  have hlaid := (Token.laid_scanAll text).sublist hts
  cases h with
  | @own e rest _ _ _ hsteps he hr =>
    obtain ⟨hat, -⟩ := Steps.getElem? hsteps
    obtain ⟨hfront, hstop⟩ := Element.own_name hts (List.mem_of_getElem? hat) he
    exact ⟨e, e, hat, hat, hfront, hstop, fun hlt => absurd hlt (Nat.lt_irrefl _)⟩
  | @member e adjacent rest _ _ _ o m sep inline hsteps he hr hsplit hsep hspelled =>
    obtain ⟨hat, hnext⟩ := Steps.getElem? hsteps
    obtain ⟨hv, htouch⟩ : adjacent.isParameter = false ∧ adjacent.start = e.stop := by
      cases hr with
      | member _ hmerge =>
        obtain ⟨_, hhead, hv, htouch, -⟩ := Owner.exists_split_of_merge hmerge
        obtain rfl := Option.some.inj hhead
        exact ⟨hv, htouch⟩
    obtain ⟨ho, hm, -⟩ := Owner.split?_eq_some hsplit
    obtain ⟨hfront, u, hu, hword, hend, hstop⟩ := Element.member_name hts
      (List.mem_of_getElem? hat) he (List.mem_of_getElem? hnext) hv htouch ho hsep hm hspelled
    refine ⟨e, adjacent, hat, hnext, hfront, Nat.le_trans hend hstop, fun _ c g hlt hg => ?_⟩
    have hafter := Element.stop_le_start hts hlt hnext hg
    exact Nat.lt_of_le_of_lt hend (Element.stop_lt_start hts hu hword (List.mem_of_getElem? hg)
      (Nat.le_trans hstop hafter))

end

/-- The cursor counts as on a name up to the end of the last element that the name goes to. For a
cursor on a parameter or on an element of a merged member this is just whether the name ends before
it, but for a cursor behind the name in that last element: in or before an inline value, or behind a
comma. On a value that is consumed, or that has no name, and on the command it is on no name. -/
theorem bind_onName {strict : Bool} {text : Text} {tokens : List Token}
    (hread : Token.read strict text = .ok tokens) {first : Nat} {ts : List Token}
    (hsegment : (first, ts) ∈ Statement.segments 0 tokens) (cursor : Int)
    (declared : List Parameter) (types : Option TypeRegistry) :
    let elements := Element.ofTokens ts
    let b := bind elements cursor declared types
    (Element.indexAt? elements cursor = none ∨ Element.indexAt? elements cursor = some 0 →
      b.onName = false) ∧
    ∀ c, Element.indexAt? elements cursor = some c → 0 < c →
      ((∃ index consumed last typed, TypedName declared types elements index consumed last typed ∧
          index ≤ c ∧ c ≤ index + consumed) ∨
        ∃ e, elements[c]? = some e ∧ e.isParameter = false ∧ b.onName = false) ∧
      ∀ index consumed last typed, TypedName declared types elements index consumed last typed →
        index ≤ c → c ≤ index + consumed →
        ∃ e f, elements[index]? = some e ∧ elements[last]? = some f ∧
          let stop := e.start + 1 + typed.length
          Text.slice text (e.start + 1) stop = typed ∧ stop ≤ f.stop ∧
          (last < c → b.onName = false) ∧
          (c ≤ last ∨ index < last → ¬ (c ≤ last ∧ stop < cursor) →
            (b.onName = true ↔ cursor ≤ stop)) ∧
          (c ≤ last → stop < cursor → b.onName = true) := by
  intro elements b
  obtain rfl := Token.eq_scan_of_read hread
  rw [Token.scan, Statement.segments_finish] at hsegment
  have hts : ts.Sublist (Token.ofText text) := Statement.sublist_of_mem_segments hsegment
  refine ⟨fun hout => ?_, fun c hc hpos => ⟨?_, fun index consumed last typed h hle hge => ?_⟩⟩
  · simp only [b, bind, run_outside hout, Pass.finish, Option.map_none, Option.getD_none]
  · rcases claimed_or_unclaimed_of_indexAt? declared types hc hpos with ⟨key, h⟩ | ⟨e, before, h⟩
    · obtain ⟨hsteps, he, hr, hle, hge⟩ := h
      obtain ⟨last, typed, h⟩ := TypedName.exists_of_reads hsteps he hr
      exact .inl ⟨_, _, last, typed, h, hle, hge⟩
    · refine .inr ⟨e, h.getElem?, ?_, ?_⟩
      · obtain ⟨-, he⟩ := h
        exact he
      · simp only [b, bind, hc, h.run.1, Pass.finish, Option.map_some, Option.getD_some]
  · have hflag : b.onName = decide (c ≤ last) := h.onName hc hle hge
    obtain ⟨e, f, he, hf, hfront, hstop, hbehind⟩ := h.stands hts
    refine ⟨e, f, he, hf, Text.slice_of_prefix hfront, hstop, fun hlt => ?_, fun hin hslip => ?_,
      fun hle _ => ?_⟩
    · rw [hflag, decide_eq_false (Nat.not_le_of_lt hlt)]
    · rw [hflag, decide_eq_true_iff]
      refine ⟨fun hle => ?_, fun hle => ?_⟩
      · exact Int.not_lt.mp fun hlt => hslip ⟨hle, hlt⟩
      · -- an element behind the name begins behind its end, which the cursor then is past
        by_contra hout
        obtain ⟨g, hg, hcontains⟩ := Element.contains_of_indexAt? hc
        have hpast := hbehind (hin.resolve_left hout) c g (Nat.lt_of_not_le hout) hg
        simp only [Element.contains, Bool.and_eq_true, decide_eq_true_eq] at hcontains
        omega
    · rw [hflag, decide_eq_true hle]

/-- A member and its value: at the end of the member's name, and in the value. -/
theorem bind_onName_row :
    let line := "New -Grid.Row 5".toList
    let elements := Element.ofTokens (Token.ofText line)
    Token.read true line = .ok (Token.scan line) ∧
      (0, Token.ofText line) ∈ Statement.segments 0 (Token.scan line) ∧
      TypedName cell (some Layout.types) elements 1 2 2 "Grid.Row".toList ∧
      (bind elements 13 cell (some Layout.types)).onName = true ∧
      (bind elements 14 cell (some Layout.types)).onName = false := by
  intro line elements
  have hread : Token.read true line = .ok (Token.scan line) :=
    Token.scanStrict_eq_ok (by decide +kernel)
  have hsegment : (0, Token.ofText line) ∈ Statement.segments 0 (Token.scan line) := by
    decide +kernel
  have hname : TypedName cell (some Layout.types) elements 1 2 2 "Grid.Row".toList := by
    let e : Element := .parameter ⟨.parameter, "-Grid".toList, "Grid".toList, 4, none, true⟩ 9
    let adjacent : Element := .value [⟨.bare, ".Row".toList, ".Row".toList, 9, none, true⟩] 9 13
    let value : Element := .value [⟨.number, "5".toList, "5".toList, 14, none, true⟩] 14 15
    have helements : elements.drop 1 = [e, adjacent, value] := by decide +kernel
    have hmerged : (Owner.merge (some Layout.types) e (some adjacent) (some value)).1.any
        (·.consumed) = true := by decide +kernel
    obtain ⟨m, hm, hconsumed⟩ := (Option.any_eq_true ..).mp hmerged
    have hfound : (Pass.start cell).found e.text = [] := by decide +kernel
    have hreads : Reads ⟨cell, some Layout.types, none⟩ (Pass.start cell) e [adjacent, value]
        (.member m) (if m.consumed then 2 else 1) _ := .member hfound (Prod.ext hm rfl)
    rw [if_pos hconsumed] at hreads
    have hsteps : Steps ⟨cell, some Layout.types, none⟩ (.first cell elements)
        ⟨1, [e, adjacent, value], Pass.start cell⟩ := by
      rw [Place.first, helements]
    have hsplit : Owner.split? (e.text ++ adjacent.raw) =
        some ("Grid".toList, "Row".toList, none) := by decide +kernel
    exact .member hsteps rfl hreads hsplit (List.mem_cons_self : ['.'] ∈ Owner.separators) rfl
  have hend : Element.indexAt? elements 13 = some 2 := by decide +kernel
  have hvalue : Element.indexAt? elements 14 = some 3 := by decide +kernel
  have hstart : elements[1]?.map (·.start) = some 4 := by decide +kernel
  have hthirteen := (bind_onName hread hsegment 13 cell (some Layout.types)).2 2 hend (by decide)
  have hfourteen := (bind_onName hread hsegment 14 cell (some Layout.types)).2 3 hvalue (by decide)
  obtain ⟨e, -, he, -, -, -, -, hon, -⟩ := hthirteen.2 1 2 2 _ hname (by decide) (by decide)
  obtain ⟨-, -, -, -, -, -, hoff, -⟩ := hfourteen.2 1 2 2 _ hname (by decide) (by decide)
  rw [show elements[1]? = some e from he, Option.map_some, Option.some.injEq] at hstart
  have hlength : "Grid.Row".toList.length = 8 := rfl
  exact ⟨hread, hsegment, hname, (hon (.inl (by decide)) (by omega)).mpr (by omega),
    hoff (by decide)⟩

/-- In the inline value behind a name the cursor counts as on the name. -/
theorem onName_in_inline :
    let line := "Cmd -Foo:bar".toList
    let elements := Element.ofTokens (Token.ofText line)
    let declared : List Parameter := [⟨"Foo".toList, [], none, false, .text, [], []⟩]
    Token.read true line = .ok (Token.scan line) ∧
      (0, Token.ofText line) ∈ Statement.segments 0 (Token.scan line) ∧
      Element.indexAt? elements 10 = some 1 ∧
      elements[1]?.map (fun e => (e.isParameter, e.start, e.text)) =
        some (true, 4, "Foo".toList) ∧
      ¬ ((bind elements 10 declared none).onName = true ↔ 10 ≤ 4 + 1 + "Foo".toList.length) := by
  decide +kernel

end CommandShell.Binding
