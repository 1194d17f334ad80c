import CommandShell.Proofs.Completion.Ending
import CommandShell.Proofs.Ranking

/-!
What a provider was asked, and where the values lie that it offers.
-/

set_option autoImplicit false

namespace CommandShell

namespace Completion

variable {σ : Type} {context : Context σ}

theorem mem_offering {c : Completion} (hc : c.candidates = [])
    {ranked : Except Raised (List Candidate)} {x : Candidate}
    (h : x ∈ (c.offering ranked).candidates) : ∃ candidates, ranked = .ok candidates ∧
      x ∈ candidates := by
  cases ranked with
  | ok candidates => exact ⟨candidates, rfl, h⟩
  | error raised =>
    rw [offering, hc] at h
    cases h

@[simp] theorem offering_request (c : Completion) (ranked : Except Raised (List Candidate)) :
    (c.offering ranked).request = c.request := by
  cases ranked <;> rfl

/-- A provider was asked for the values of the parameter in use, and its answer is offered. -/
inductive Offered (context : Context σ) (command : Option (Command σ)) (b : Binding)
    (span : ValueSpan) (request : PoolRequest) : Completion → Prop where
  | intro {c : Command σ} {key : Text} {p : Parameter} {provider : Provider σ}
      {pool : List PoolEntry} {noted : List Diagnostic} :
      command = some c → b.inUse = some (.name key) → b.attached.get? key = none →
      c.parameter? key = some p → c.completer? p.name = some provider →
      request = requestFor context c p b span.word →
      Pool.get provider request context.state context.timeout none = (pool, noted) →
      Offered context command b span request
        (withPool context span pool true
          { nothing span.start span.length with diagnostics := noted, request := some request })

theorem values_offered {command : Option (Command σ)} {b : Binding} {span : ValueSpan}
    {request : PoolRequest} (h : (values context command b span).request = some request) :
    Offered context command b span request (values context command b span) := by
  revert h
  fun_cases values context command b span with
  | case5 result key hkey c hattached p hp provider hprovider asked pool noted hpool =>
    intro h
    obtain rfl : asked = request := Option.some.inj ((offering_request ..).symm.trans h)
    exact .intro rfl hkey hattached hp hprovider rfl hpool
  | case3 | case6 => rintro ⟨⟩
  | case1 | case2 | case4 =>
    intro h
    cases (offering_request ..).symm.trans h

def touchingName? (previous e : Element) : Option Nat :=
  if !e.isParameter && previous.isParameter && previous.stop == e.start && previous.inline.isNone
  then memberName? e else none

/-- Where on an element a value is completed. -/
inductive ValueAt (line : Text) (cursor : Nat) (previous e : Element) : ValueSpan → Prop where
  | member {length : Nat} : touchingName? previous e = some length → e.start + length < cursor →
      ValueAt line cursor previous e (inlineSpan line e cursor (e.start + length + 1))
  | inline : e.isParameter = true → nameEnd e < cursor →
      ValueAt line cursor previous e (inlineSpan line e cursor (nameEnd e + 1))
  | part : e.isParameter = false → touchingName? previous e = none →
      ValueAt line cursor previous e (partSpan line e cursor)

theorem memberNames_request (line : Text) (parameter adjacent : Element) (length cursor : Nat) :
    (memberNames context line parameter adjacent length cursor).request = none := by
  fun_cases memberNames context line parameter adjacent length cursor <;>
    first | rfl | exact offering_request ..

theorem parameterNames_request (line : Text) (e : Element) (cursor : Nat)
    (command : Option (Command σ)) (b : Binding) :
    (parameterNames context line e cursor command b).request = none := by
  cases command <;> first | rfl | exact offering_request ..

theorem argument_offered {line : Text} {cursor : Nat} {elements : List Element}
    {command previous e : Element} {request : PoolRequest}
    (h : (argument context line cursor elements command previous e).request = some request) :
    let c := context.registry.get? command.text
    let b := Binding.bindInvocation elements cursor (some context.registry.describe)
      (some context.types)
    ∃ span result, ValueAt line cursor previous e span ∧ Offered context c b span request result ∧
      argument context line cursor elements command previous e =
        { result with diagnostics := b.errors ++ result.diagnostics } := by
  intro c b
  obtain ⟨result, heq, hspan⟩ : ∃ result,
      argument context line cursor elements command previous e =
        { result with diagnostics := b.errors ++ result.diagnostics } ∧
      (result.request = some request → ∃ span, ValueAt line cursor previous e span ∧
        Offered context c b span request result) := by
    refine ⟨_, rfl, ?_⟩
    rw [← touchingName?]
    split
    · rename_i length hm
      split
      · rw [memberNames_request]
        rintro ⟨⟩
      · rename_i hcursor
        exact fun h => ⟨_, .member hm (Nat.lt_of_not_le hcursor), values_offered h⟩
    · rename_i hm
      split
      · rename_i hp
        split
        · rw [parameterNames_request]
          rintro ⟨⟩
        · rename_i hcursor
          exact fun h => ⟨_, .inline hp (Nat.lt_of_not_le hcursor), values_offered h⟩
      · rename_i hp
        exact fun h => ⟨_, .part (by simpa using hp) hm, values_offered h⟩
  rw [heq] at h
  obtain ⟨span, hat, hoffered⟩ := hspan h
  exact ⟨span, result, hat, hoffered, heq⟩

theorem complete_eq (context : Context σ) {line : Text} {before : List Element} {e : Element}
    (helements : elementsAt line line.length = before ++ [e])
    (hc : e.contains line.length = true) :
    complete context line line.length =
      match before.head?, before.getLast? with
      | some command, some previous =>
        if before.length = 1 ∧ Text.lower command.text = "help".toList ∧ e.isParameter = false then
          helpTargets context line e line.length
        else argument context line line.length (before ++ [e]) command previous e
      | _, _ => commandNames context line e line.length := by
  have hcomplete : complete context line line.length = completeAt context line line.length := by
    rw [complete, Int.toNat_natCast, Nat.min_self]
  rw [hcomplete]
  rw [elementsAt] at helements
  simp only [completeAt, helements, Element.indexAt?_append_singleton hc]
  cases before with
  | nil => rfl
  | cons command rest =>
    have he : (command :: rest ++ [e])[(command :: rest).length]? = some e := by simp
    have hprevious : (command :: rest ++ [e])[(command :: rest).length - 1]? =
        (command :: rest).getLast? := by
      rw [List.getElem?_append_left (by simp), List.getLast?_eq_getElem?]
    obtain ⟨previous, hlast⟩ : ∃ previous, (command :: rest).getLast? = some previous :=
      ⟨_, List.getLast?_eq_getLast_of_ne_nil (List.cons_ne_nil _ _)⟩
    rw [hlast] at hprevious
    simp only [List.cons_append] at he hprevious ⊢
    simp only [he, hprevious, hlast, List.head?_cons]
    rw [if_neg (by simp)]
    simp only [Bool.and_eq_true, decide_eq_true_eq, Bool.not_eq_true', and_assoc]

theorem complete_cases (context : Context σ) {line : Text} {before : List Element} {e : Element}
    (helements : elementsAt line line.length = before ++ [e])
    (hc : e.contains line.length = true) :
    complete context line line.length = commandNames context line e line.length ∨
      ∃ command previous, before.head? = some command ∧ before.getLast? = some previous ∧
        (complete context line line.length = helpTargets context line e line.length ∨
          complete context line line.length =
            argument context line line.length (before ++ [e]) command previous e) := by
  rw [complete_eq context helements hc]
  split
  · rename_i command previous hhead hlast
    refine .inr ⟨command, previous, hhead, hlast, ?_⟩
    split
    · exact .inl rfl
    · exact .inr rfl
  · exact .inl rfl

theorem complete_argument {line : Text} {before : List Element} {e : Element}
    (helements : elementsAt line line.length = before ++ [e])
    (hc : e.contains line.length = true) {request : PoolRequest}
    (h : (complete context line line.length).request = some request) :
    ∃ command previous, before.head? = some command ∧ before.getLast? = some previous ∧
      complete context line line.length =
        argument context line line.length (before ++ [e]) command previous e := by
  rcases complete_cases context helements hc with
    heq | ⟨command, previous, hhead, hlast, heq | heq⟩
  · rw [heq] at h
    cases (offering_request ..).symm.trans h
  · rw [heq] at h
    cases (offering_request ..).symm.trans h
  · exact ⟨command, previous, hhead, hlast, heq⟩

end Completion

end CommandShell
