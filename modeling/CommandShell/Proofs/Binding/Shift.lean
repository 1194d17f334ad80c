import CommandShell.Proofs.Binding.Pass
import CommandShell.Proofs.Element.Shift

/-!
The binding of elements that lie farther on. Only what is noted says where it was found; everything
else is the same.
-/

set_option autoImplicit false

namespace CommandShell

def Diagnostic.shift (n : Nat) (d : Diagnostic) : Diagnostic :=
  { d with offset := d.offset.map (· + n) }

theorem Diagnostic.shift_of_none {d : Diagnostic} (h : d.offset = none) (n : Nat) :
    d.shift n = d := by
  obtain ⟨cause, offset⟩ := d
  obtain rfl := h
  rfl

namespace Owner

variable (n : Nat)

theorem findMember_shift (owner : OwnerType) (name : Text) (offset : Nat) :
    findMember owner name (some (offset + n)) =
      ((findMember owner name (some offset)).1,
        (findMember owner name (some offset)).2.map (Diagnostic.shift n)) := by
  unfold findMember
  split <;> rfl

theorem convert_shift (owner : OwnerType) (member : Attachable) (raw : Option Text)
    (offset : Nat) :
    convert owner member raw (offset + n) =
      ((convert owner member raw offset).1,
        (convert owner member raw offset).2.map (Diagnostic.shift n)) := by
  unfold convert
  split
  · rfl
  · rfl
  · split <;> rfl

theorem rawValue_shift (inline : Option Text) (value : Option Element) :
    rawValue inline (value.map (Element.shift n)) = rawValue inline value := by
  cases value with
  | none => rfl
  | some e => simp [rawValue]

theorem merge_shift (types : Option TypeRegistry) (parameter : Element)
    (adjacent value : Option Element) :
    merge types (parameter.shift n) (adjacent.map (Element.shift n))
        (value.map (Element.shift n)) =
      ((merge types parameter adjacent value).1,
        (merge types parameter adjacent value).2.map (Diagnostic.shift n)) := by
  match types, adjacent with
  | none, _ => rfl
  | some _, none => rfl
  | some types, some adjacent =>
    have htouch :
        (adjacent.start + n != parameter.stop + n) = (adjacent.start != parameter.stop) := by
      rw [Bool.eq_iff_iff, bne_iff_ne, bne_iff_ne, Ne, Nat.add_right_cancel_iff]
    simp only [merge, Option.map_some, Element.isParameter_shift, Element.start_shift,
      Element.stop_shift, Element.inline_shift, Element.text_shift, Element.raw_shift, htouch,
      findMember_shift, rawValue_shift]
    split
    · rfl
    · cases split? (parameter.text ++ adjacent.raw) with
      | none => rfl
      | some parts =>
        obtain ⟨ownerName, memberName, inline⟩ := parts
        dsimp only
        cases types.resolve ownerName with
        | none => rfl
        | some owner =>
          dsimp only
          obtain ⟨member, found⟩ := findMember owner memberName (some parameter.start)
          cases member with
          | none => rfl
          | some member =>
            obtain ⟨raw, consumed⟩ := rawValue inline value
            cases consumed <;> cases value <;> simp [convert_shift]

end Owner

namespace Binding

variable (n : Nat) {context : Context} {pass : Pass} {e : Element} {rest : List Element}
  {r : Reading} {consumed : Nat} {noted : List Diagnostic}

def shift (b : Binding) : Binding :=
  { b with
    errors := b.errors.map (Diagnostic.shift n)
    cursorElement := b.cursorElement.map (Element.shift n) }

def Pass.shift (pass : Pass) : Pass := { pass with errors := pass.errors.map (Diagnostic.shift n) }

@[simp] theorem valueOf_shift (e : Element) : valueOf (e.shift n) = valueOf e := by
  simp only [valueOf, Element.parts_shift]
  match e.parts with
  | [] => rfl
  | [t] => rfl
  | t :: u :: parts => simp

theorem valueAfter_shift (e : Element) (following : Option Element) (isSwitch : Bool) :
    valueAfter (e.shift n) (following.map (Element.shift n)) isSwitch =
      valueAfter e following isSwitch := by
  unfold valueAfter
  rw [Element.inline_shift]
  cases e.inline with
  | some inline => rfl
  | none => cases following <;> cases isSwitch <;> simp

theorem misnamed_shift (context : Context) (pass : Pass) (typed : Text) (found : List Parameter)
    (offset : Nat) :
    misnamed context (pass.shift n) typed found (offset + n) =
      (misnamed context pass typed found offset).map (Diagnostic.shift n) := by
  unfold misnamed
  dsimp only [Pass.shift]
  split
  · rfl
  · split
    · rfl
    · split <;> rfl

theorem Reading.after_shift (r : Reading) (noted : List Diagnostic) (pass : Pass) :
    r.after (noted.map (Diagnostic.shift n)) (pass.shift n) = (r.after noted pass).shift n := by
  cases r <;> simp [after, Pass.shift]

theorem Reads.shift (h : Reads context pass e rest r consumed noted) :
    Reads context (pass.shift n) (e.shift n) (rest.map (Element.shift n)) r consumed
      (noted.map (Diagnostic.shift n)) := by
  have hfound : (pass.shift n).found (e.shift n).text = pass.found e.text := by
    rw [Element.text_shift]
    rfl
  have hvalue (isSwitch : Bool) :
      valueAfter (e.shift n) (rest.map (Element.shift n)).head? isSwitch =
        valueAfter e rest.head? isSwitch := by
    rw [List.head?_map, valueAfter_shift]
  have hmerge := Owner.merge_shift n context.types e rest.head? rest[1]?
  rw [← List.head?_map, ← List.getElem?_map] at hmerge
  cases h with
  | declared hf hv => exact .declared (hfound.trans hf) ((hvalue _).trans hv)
  | member hf hm =>
    rw [hm] at hmerge
    exact .member (hfound.trans hf) hmerge
  | unknown hf hm hv =>
    rw [hm] at hmerge
    rw [List.map_append, ← misnamed_shift, ← Element.text_shift n, ← Element.start_shift]
    exact .unknown (hfound.trans hf) hmerge ((hvalue _).trans hv)
  | ambiguous hf hv =>
    rw [← misnamed_shift, ← Element.text_shift n, ← Element.start_shift]
    exact .ambiguous (hfound.trans hf) ((hvalue _).trans hv)

namespace Pass

theorem anchorAt_shift (context : Context) (index nameSpan consumed : Nat) (key : Text)
    (pass : Pass) :
    anchorAt context index nameSpan consumed key (pass.shift n) =
      (anchorAt context index nameSpan consumed key pass).shift n := by
  unfold anchorAt
  split
  · split <;> rfl
  · rfl

theorem takeParameter_shift (context : Context) (index : Nat) (e : Element)
    (rest : List Element) (pass : Pass) :
    (pass.shift n).takeParameter context index (e.shift n) (rest.map (Element.shift n)) =
      ((pass.takeParameter context index e rest).1.shift n,
        (pass.takeParameter context index e rest).2) := by
  obtain ⟨r, consumed, noted, h⟩ := exists_reads context pass e rest
  rw [h.takeParameter, (h.shift n).takeParameter, Reading.after_shift, anchorAt_shift]

theorem run_shift (context : Context) (index skip : Nat) (rest : List Element) (pass : Pass) :
    run context index skip (rest.map (Element.shift n)) (pass.shift n) =
      (run context index skip rest pass).shift n := by
  induction rest generalizing index skip pass with
  | nil => cases skip <;> rfl
  | cons e rest ih =>
    cases skip with
    | succ skip => exact ih (index + 1) skip pass
    | zero =>
      rw [List.map_cons, run, run, Element.isParameter_shift, takeParameter_shift]
      split
      · exact ih ..
      · rw [← ih, takeValue, takeValue, valueOf_shift]
        rfl

end Pass

theorem bind_shift {elements : List Element} {cursor farther : Int}
    (h : Element.indexAt? (elements.map (Element.shift n)) farther =
      Element.indexAt? elements cursor) (declared : List Parameter)
    (types : Option TypeRegistry) :
    bind (elements.map (Element.shift n)) farther declared types =
      (bind elements cursor declared types).shift n := by
  have hcursor : ((Element.indexAt? elements cursor).bind
      ((elements.map (Element.shift n))[·]?)) =
        ((Element.indexAt? elements cursor).bind (elements[·]?)).map (Element.shift n) := by
    cases Element.indexAt? elements cursor <;> simp
  have hstart : (Pass.start declared).shift n = Pass.start declared := rfl
  rw [bind, bind, h, hcursor, ← List.map_drop, ← hstart, Pass.run_shift, hstart]
  rfl

theorem bindInvocation_shift (elements : List Element) (cursor : Nat)
    (describe : Option (Text → Except Raised (List Parameter))) (types : Option TypeRegistry) :
    bindInvocation (elements.map (Element.shift n)) ((cursor + n : Nat) : Int) describe types =
      (bindInvocation elements cursor describe types).shift n := by
  have hbind (declared : List Parameter) :=
    bind_shift n (Element.indexAt?_shift n elements cursor) declared types
  unfold bindInvocation
  rw [List.head?_map]
  cases elements.head? with
  | none => exact hbind []
  | some command =>
    simp only [Option.map_some, Element.text_shift, Element.start_shift, hbind]
    cases describe with
    | none => rfl
    | some describe =>
      dsimp only
      cases describe command.text <;> rfl

theorem outcome_shift (b : Binding) : (b.shift n).outcome = b.outcome.map (Binding.shift n) := by
  have hraised : Diagnostic.raised? ∘ Diagnostic.shift n = Diagnostic.raised? := rfl
  simp only [outcome, Diagnostic.outcome, Binding.shift, List.findSome?_map, hraised]
  split <;> rfl

end Binding

end CommandShell
