import CommandShell.Proofs.Binding.Shift
import CommandShell.Proofs.Completion.Acceptance
import CommandShell.Proofs.Statement.Append

/-!
A completion is local to its statement. Behind a separator a line is completed as it would be by
itself: what stands in front only moves the offsets.
-/

set_option autoImplicit false

namespace CommandShell

theorem Text.slice_append_right (front s : Text) (start stop : Nat) :
    slice (front ++ s) (start + front.length) (stop + front.length) = slice s start stop := by
  rw [slice, slice, Nat.add_comm stop, Nat.add_comm start, List.take_length_add_append,
    List.drop_length_add_append]

namespace Pool

theorem waited_offset (parameter : Text) (timeout : Timeout) :
    ∀ d ∈ (waited parameter timeout).2, d.offset = none := by
  unfold waited
  split <;> simp

theorem ended_offset (entries : List PoolEntry) (parameter : Text) (timeout : Timeout)
    (cancelled : Bool) (ending : Ending) :
    ∀ d ∈ (ended entries parameter timeout cancelled ending).2, d.offset = none := by
  cases ending with
  | finished => simp [ended]
  | failed fault => simp [ended]
  | never =>
    cases cancelled with
    | true => simp [ended]
    | false => exact waited_offset parameter timeout

theorem get_offset {σ : Type} (provider : Provider σ) (request : PoolRequest) (state : σ)
    (timeout : Timeout) (limit : Option Int) :
    ∀ d ∈ (get provider request state timeout limit).2, d.offset = none := by
  unfold get
  generalize provider request state = supply
  fun_cases collect request.parameter timeout limit request.cancelled supply with
  | case1 | case2 | case5 | case6 => simp
  | case3 => exact waited_offset _ _
  | case4 | case7 | case8 => exact ended_offset _ _ _ _ _

end Pool

namespace Completion

variable {σ : Type} (context : Context σ)

def shift (n : Nat) (c : Completion) : Completion :=
  { c with start := c.start + n, diagnostics := c.diagnostics.map (Diagnostic.shift n) }

def ValueSpan.shift (n : Nat) (span : ValueSpan) : ValueSpan :=
  { span with start := span.start + n }

theorem offering_shift (n : Nat) (c : Completion) (ranked : Except Raised (List Candidate)) :
    (c.shift n).offering ranked = (c.offering ranked).shift n := by
  cases ranked with
  | ok candidates => rfl
  | error raised => simp [offering, shift, Diagnostic.shift]

theorem nothing_shift (start length n : Nat) :
    nothing (start + n) length = (nothing start length).shift n := rfl

section Elements

variable (n : Nat) (e : Element) (cursor : Nat)

theorem withCursorElement_shift (elements : List Element) :
    withCursorElement (elements.map (Element.shift n)) (cursor + n) =
      (withCursorElement elements cursor).map (Element.shift n) := by
  have hany : (elements.map (Element.shift n)).any (·.contains ((cursor + n : Nat) : Int)) =
      elements.any (·.contains (cursor : Int)) := by
    simp only [List.any_map, Function.comp_def, Element.contains_shift]
  unfold withCursorElement
  rw [hany]
  split
  · rfl
  · have hnew : Element.value [] (cursor + n) (cursor + n) =
        (Element.value [] cursor cursor).shift n := rfl
    simp [List.filter_map, Function.comp_def, hnew]

theorem dashAsParameter_shift :
    dashAsParameter (cursor + n) (e.shift n) = (dashAsParameter cursor e).shift n := by
  cases e with
  | parameter t stop => rfl
  | value parts start stop =>
    match parts with
    | [] => rfl
    | t :: u :: parts => rfl
    | [t] =>
      have hstop : (stop + n == cursor + n) = (stop == cursor) := by
        rw [Bool.eq_iff_iff, beq_iff_eq, beq_iff_eq, Nat.add_right_cancel_iff]
      simp only [Element.shift, List.map_cons, List.map_nil, dashAsParameter, Token.shift_text,
        hstop]
      cases t.text with
      | nil => rfl
      | cons c text =>
        cases text with
        | cons d text => rfl
        | nil =>
          dsimp only
          split <;> rfl

theorem partAt?_shift : partAt? (e.shift n) (cursor + n) =
    (partAt? e cursor).map (Token.shift n) := by
  simp [partAt?, List.filter_map, Function.comp_def]

theorem nameEnd_shift : nameEnd (e.shift n) = nameEnd e + n := by
  simp only [nameEnd, Element.start_shift, Element.text_shift]
  omega

theorem memberName?_shift : memberName? (e.shift n) = memberName? e := by
  simp only [memberName?, Element.raw_shift]

end Elements

section Line

variable (front line : Text) (e : Element) (cursor : Nat)

theorem wordBefore_shift (part : Option Token) :
    wordBefore (front ++ line) (part.map (Token.shift front.length)) (cursor + front.length) =
      wordBefore line part cursor := by
  cases part with
  | none => rfl
  | some t => simp [wordBefore, Text.slice_append_right]

theorem typedUpTo_shift : typedUpTo (front ++ line) (e.shift front.length) (cursor + front.length) =
    typedUpTo line e cursor := by
  simp [typedUpTo, Text.slice_append_right]

theorem commandNames_shift :
    commandNames context (front ++ line) (e.shift front.length) (cursor + front.length) =
      (commandNames context line e cursor).shift front.length := by
  simp only [commandNames, typedUpTo_shift, Element.start_shift, Element.stop_shift,
    Nat.add_sub_add_right, nothing_shift, offering_shift]

theorem helpTargets_shift :
    helpTargets context (front ++ line) (e.shift front.length) (cursor + front.length) =
      (helpTargets context line e cursor).shift front.length := by
  simp only [helpTargets, typedUpTo_shift, Element.start_shift, Element.stop_shift,
    Nat.add_sub_add_right, nothing_shift, offering_shift]

theorem parameterNames_shift (command : Option (Command σ)) (b : Binding) :
    parameterNames context (front ++ line) (e.shift front.length) (cursor + front.length) command
        (b.shift front.length) =
      (parameterNames context line e cursor command b).shift front.length := by
  have hoffered (c : Command σ) : offered c (b.shift front.length) = offered c b := rfl
  have htyped : Text.slice (front ++ line) (e.start + front.length + 1)
      (min (cursor + front.length) (nameEnd e + front.length)) =
        Text.slice line (e.start + 1) (min cursor (nameEnd e)) := by
    rw [Nat.add_min_add_right, Nat.add_right_comm, Text.slice_append_right]
  simp only [parameterNames, nameEnd_shift, Element.start_shift, htyped, hoffered,
    Nat.add_sub_add_right, nothing_shift]
  cases command with
  | none => rfl
  | some c => exact offering_shift ..

theorem memberNames_shift (parameter adjacent : Element) (length : Nat) :
    memberNames context (front ++ line) (parameter.shift front.length)
        (adjacent.shift front.length) length (cursor + front.length) =
      (memberNames context line parameter adjacent length cursor).shift front.length := by
  have htyped : Text.slice (front ++ line) (adjacent.start + front.length)
      (min (cursor + front.length) (adjacent.start + front.length + length)) =
        Text.slice line adjacent.start (min cursor (adjacent.start + length)) := by
    rw [Nat.add_right_comm, Nat.add_min_add_right, Text.slice_append_right]
  have hlength : adjacent.start + front.length + length - (parameter.start + front.length) =
      adjacent.start + length - parameter.start := by
    rw [Nat.add_right_comm, Nat.add_sub_add_right]
  simp only [memberNames, Element.start_shift, Element.text_shift, htyped, hlength]
  cases Owner.splitName? (parameter.text ++
      Text.slice line adjacent.start (min cursor (adjacent.start + length))) with
  | none => rfl
  | some names =>
    dsimp only
    cases context.types.resolve names.1 with
    | none => rfl
    | some owner =>
      exact offering_shift front.length
        (nothing parameter.start (adjacent.start + length - parameter.start)) _

theorem inlineSpan_shift (start : Nat) :
    inlineSpan (front ++ line) (e.shift front.length) (cursor + front.length)
        (start + front.length) =
      (inlineSpan line e cursor start).shift front.length := by
  simp [inlineSpan, ValueSpan.shift, Text.slice_append_right, Nat.add_sub_add_right]

theorem partSpan_shift :
    partSpan (front ++ line) (e.shift front.length) (cursor + front.length) =
      (partSpan line e cursor).shift front.length := by
  simp only [partSpan, partAt?_shift, wordBefore_shift]
  cases partAt? e cursor <;> rfl

end Line

theorem values_shift (n : Nat) (command : Option (Command σ)) (b : Binding) (span : ValueSpan) :
    values context command (b.shift n) (span.shift n) =
      (values context command b span).shift n := by
  have hinUse : (b.shift n).inUse = b.inUse := rfl
  have hattached : (b.shift n).attached = b.attached := rfl
  have hnoted (provider : Provider σ) (request : PoolRequest) :
      (Pool.get provider request context.state context.timeout none).2.map (Diagnostic.shift n) =
        (Pool.get provider request context.state context.timeout none).2 := by
    refine (List.map_congr_left fun d hd => ?_).trans (List.map_id _)
    exact Diagnostic.shift_of_none (Pool.get_offset _ _ _ _ _ d hd) n
  simp only [values, hinUse, hattached]
  match b.inUse with
  | none => rfl
  | some (.leftover _) => rfl
  | some (.name key) =>
    dsimp only
    match b.attached.get? key, command with
    | some m, _ => exact offering_shift n (nothing span.start span.length) _
    | none, none => exact offering_shift n (nothing span.start span.length) _
    | none, some c =>
      dsimp only
      match c.parameter? key with
      | none => rfl
      | some p =>
        dsimp only
        match c.completer? p.name with
        | none => exact offering_shift n (nothing span.start span.length) _
        | some provider =>
          have hrequest : requestFor context c p (b.shift n) (span.shift n).word =
            requestFor context c p b span.word := rfl
          let request := requestFor context c p b span.word
          let noted := (Pool.get provider request context.state context.timeout none).2
          let asked (span : ValueSpan) : Completion :=
            { nothing span.start span.length with diagnostics := noted, request := some request }
          have hasked : asked (span.shift n) = (asked span).shift n := by
            simp only [asked, shift, noted, hnoted]
            rfl
          simp only [hrequest, withPool]
          exact (congrArg (offering · _) hasked).trans (offering_shift ..)

theorem shift_noted (n : Nat) (b : Binding) (c : Completion) :
    { c.shift n with diagnostics := (b.shift n).errors ++ (c.shift n).diagnostics } =
      ({ c with diagnostics := b.errors ++ c.diagnostics } : Completion).shift n := by
  simp [shift, Binding.shift]

theorem argument_shift (front line : Text) (cursor : Nat) (elements : List Element)
    (command previous e : Element) :
    argument context (front ++ line) (cursor + front.length)
        (elements.map (Element.shift front.length)) (command.shift front.length)
        (previous.shift front.length) (e.shift front.length) =
      (argument context line cursor elements command previous e).shift front.length := by
  have htouch : (previous.stop + front.length == e.start + front.length) =
      (previous.stop == e.start) := by
    rw [Bool.eq_iff_iff, beq_iff_eq, beq_iff_eq, Nat.add_right_cancel_iff]
  simp only [argument, Element.text_shift, Element.isParameter_shift, Element.start_shift,
    Element.stop_shift, Element.inline_shift, memberName?_shift, nameEnd_shift,
    Binding.bindInvocation_shift, htouch, Nat.add_le_add_iff_right]
  generalize Binding.bindInvocation elements cursor (some context.registry.describe)
    (some context.types) = b
  generalize (if (!e.isParameter && previous.isParameter && previous.stop == e.start &&
    previous.inline.isNone) = true then memberName? e else none) = member
  cases member with
  | some length =>
    dsimp only
    by_cases hc : cursor ≤ e.start + length
    · rw [if_pos hc, if_pos (by omega), memberNames_shift]
      exact shift_noted ..
    · have hstart : e.start + front.length + length + 1 = e.start + length + 1 + front.length := by
        omega
      rw [if_neg hc, if_neg (by omega), hstart, inlineSpan_shift, values_shift]
      exact shift_noted ..
  | none =>
    dsimp only
    by_cases hp : e.isParameter = true
    · rw [if_pos hp, if_pos hp]
      by_cases hc : cursor ≤ nameEnd e
      · rw [if_pos hc, if_pos hc, parameterNames_shift]
        exact shift_noted ..
      · rw [if_neg hc, if_neg hc, Nat.add_right_comm, inlineSpan_shift, values_shift]
        exact shift_noted ..
    · rw [if_neg hp, if_neg hp, partSpan_shift, values_shift]
      exact shift_noted ..

theorem completeAt_shift {front line : Text} {cursor : Nat}
    (h : elementsAt (front ++ line) (cursor + front.length) =
      (elementsAt line cursor).map (Element.shift front.length)) :
    completeAt context (front ++ line) (cursor + front.length) =
      (completeAt context line cursor).shift front.length := by
  have hnothing : nothing (cursor + front.length) 0 = (nothing cursor 0).shift front.length := rfl
  unfold completeAt
  dsimp only
  rw [← elementsAt, ← elementsAt, h, Element.indexAt?_shift]
  generalize elementsAt line cursor = elements
  cases Element.indexAt? elements cursor with
  | none => exact hnothing
  | some index =>
    cases elements with
    | nil => exact hnothing
    | cons command rest =>
      rw [List.map_cons]
      dsimp only
      rw [← List.map_cons, List.getElem?_map, List.getElem?_map]
      cases (command :: rest)[index]? with
      | none => exact hnothing
      | some e =>
        cases (command :: rest)[index - 1]? with
        | none => exact hnothing
        | some previous =>
          simp only [Option.map_some, Element.text_shift, Element.isParameter_shift]
          by_cases hzero : index = 0
          · rw [if_pos hzero, if_pos hzero, commandNames_shift]
          · rw [if_neg hzero, if_neg hzero, helpTargets_shift, argument_shift]
            split <;> rfl

theorem elementsAt_shift {front line : Text} {cursor : Nat}
    (h : Statement.at? (Token.scan (front ++ line)) ((cursor + front.length : Nat) : Int) =
      (Statement.at? (Token.scan line) cursor).map (Token.shift front.length)) :
    elementsAt (front ++ line) (cursor + front.length) =
      (elementsAt line cursor).map (Element.shift front.length) := by
  have hdash : dashAsParameter (cursor + front.length) ∘ Element.shift front.length =
      Element.shift front.length ∘ dashAsParameter cursor :=
    funext fun e => dashAsParameter_shift front.length e cursor
  rw [elementsAt, elementsAt, h, Element.ofTokens_shift, withCursorElement_shift, List.map_map,
    List.map_map, hdash]

/-- Behind a separator everything is completed as it would be in a line of its own: the same
candidates and the same request, the span and what is noted as much farther on. -/
theorem complete_append_separator {a : Text} {c : Char} (hc : c = ';' ∨ c = '\n') {ts : List Token}
    {t : Token} {n : Nat} (h : Token.read true (a ++ [c]) = .ok (ts ++ [t, Token.finish n]))
    (ht : t.kind = .operator ∧ t.value = [c] ∧ t.start = a.length) (context : Context σ)
    (b : Text) (cursor : Nat) :
    complete context (a ++ c :: b) ((a.length + 1 + cursor : Nat) : Int) =
      (complete context b cursor).shift (a.length + 1) := by
  obtain ⟨hsealed, hfront⟩ := Token.sealed_of_read hc h ht
  have hlength : (a ++ [c]).length = a.length + 1 := by simp
  have hlaid : Token.Laid (a ++ [c]).length (ts ++ [t]) := hfront ▸ Token.laid_scanAll (a ++ [c])
  have hstop : t.stop = (a ++ [c]).length := by
    have hwithin := hlaid.within t (by simp)
    have := hwithin.start_lt
    have := hwithin.stop_le
    omega
  have hboundary : Statement.isBoundary t = true := by
    rw [Statement.isBoundary, ht.1, ht.2.1]
    rcases hc with rfl | rfl <;> decide
  have hkinds : ∀ u ∈ ts, u.kind ≠ .endOfInput := fun u hu =>
    Token.kind_ne_of_mem_ofText (hfront ▸ List.mem_append_left [t] hu)
  have hline : Token.scan (a ++ [c] ++ b) = ts ++ t :: (Token.scan b).map (Token.shift t.stop) := by
    rw [Token.scan_append hsealed, ← Token.ofText, hfront, hstop, List.append_assoc]
    rfl
  have hcursor : min ((a.length + 1 + cursor : Nat) : Int).toNat (a ++ c :: b).length =
      min cursor b.length + (a ++ [c]).length := by
    simp only [Int.toNat_natCast, List.length_append, List.length_cons, List.length_nil]
    omega
  have hwhole : a ++ c :: b = a ++ [c] ++ b := by simp
  rw [complete, complete, hcursor, hwhole, Int.toNat_natCast, ← hlength]
  refine completeAt_shift context (elementsAt_shift ?_)
  rw [hline, ← hstop]
  exact Statement.at?_append hkinds hboundary (Token.scan b) _

theorem complete_append_separator_supplying :
    let all := complete supplyingContext
      ("Cmd 'a;'".toList ++ ';' :: "Cmd -Z 1 -P x y,v".toList) (8 + 1 + 17 : Nat)
    all = (complete supplyingContext "Cmd -Z 1 -P x y,v".toList (17 : Nat)).shift 9 ∧
      all.candidates.map (·.insertion) = ["'v w'".toList] ∧ all.start = 25 ∧ all.length = 1 ∧
      all.diagnostics = [⟨.unknownParameter ['Z'], some 13⟩] ∧ all.request.isSome = true := by
  intro all
  let front : List Token := [⟨.bare, "Cmd".toList, "Cmd".toList, 0, none, true⟩,
    ⟨.verbatim, "'a;'".toList, "a;".toList, 4, none, true⟩]
  let separator : Token := ⟨.operator, [';'], [';'], 8, none, true⟩
  have h : Token.read true ("Cmd 'a;'".toList ++ [';']) =
      .ok (front ++ [separator, Token.finish 9]) :=
    (Token.scanStrict_eq_ok (by decide +kernel)).trans (congrArg Except.ok (by decide +kernel))
  have hall := complete_append_separator (.inl rfl) h ⟨rfl, rfl, rfl⟩ supplyingContext
    "Cmd -Z 1 -P x y,v".toList 17
  exact ⟨hall, by decide +kernel, by decide +kernel, by decide +kernel, by decide +kernel,
    by decide +kernel⟩

end Completion

end CommandShell
