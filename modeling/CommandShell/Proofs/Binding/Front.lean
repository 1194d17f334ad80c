import CommandShell.Proofs.Binding.Readings
import CommandShell.Proofs.Binding.Replace
import CommandShell.Proofs.Owner.Merge

/-!
The last parameter of an invocation. What stands in front of it is read without it, since nothing
consumes a parameter; from where that leads to, it and the word that touches it are read as a member
or not.
-/

set_option autoImplicit false

namespace CommandShell

variable {types : Option TypeRegistry} {x p : Element}

namespace Owner

theorem rawValue_parameter (hp : p.isParameter = true) (inline : Option Text) :
    rawValue inline (some p) = rawValue inline none := by
  unfold rawValue
  split <;> simp [hp]

theorem rawValue_none (inline : Option Text) : (rawValue inline none).2 = false := by
  unfold rawValue
  split <;> rfl

theorem merge_value_parameter (hp : p.isParameter = true) (adjacent : Option Element) :
    merge types x adjacent (some p) = merge types x adjacent none := by
  unfold merge
  simp only [rawValue_parameter hp, rawValue_none]

theorem merge_adjacent_parameter (hp : p.isParameter = true) (value : Option Element) :
    merge types x (some p) value = merge types x none none := by
  cases types <;> simp [merge, hp]

variable {registry : TypeRegistry} {owner : OwnerType} {o name : Text} {e adjacent : Element}
  {typed : Text} {inline : Option Text}

theorem consumed_eq_false {types : Option TypeRegistry} {adjacent : Option Element}
    {m : AttachedMatch} {noted : List Diagnostic}
    (h : merge types x adjacent none = (some m, noted)) : m.consumed = false := by
  cases hm : m.consumed with
  | false => rfl
  | true =>
    obtain ⟨value, hvalue, -⟩ := exists_value_of_consumed h hm
    cases hvalue

theorem findMember_offset (owner : OwnerType) (name : Text) (offset : Option Nat) :
    (findMember owner name offset).1 = (findMember owner name none).1 := by
  unfold findMember
  split <;> rfl

theorem Touches.merge_of_unfound (h : Touches e adjacent typed)
    (hsplit : split? typed = some (o, name, inline)) (hresolve : registry.resolve o = some owner)
    (hfind : (findMember owner name none).1 = none) (value : Option Element) :
    (merge (some registry) e (some adjacent) value).1 = none := by
  rw [← findMember_offset owner name (some e.start)] at hfind
  simp only [merge, h.not_apart, Bool.false_eq_true, if_false, h.typed, hsplit, hresolve]
  split
  · rfl
  · rename_i found noted heq
    rw [heq] at hfind
    cases hfind

end Owner

namespace Binding

variable {declared : List Parameter} {context : Context} {pass : Pass} {rest : List Element}
  {r : Reading} {consumed : Nat} {noted : List Diagnostic}

theorem valueAfter_parameter (hp : p.isParameter = true) (isSwitch : Bool) :
    valueAfter x (some p) isSwitch = valueAfter x none isSwitch := by
  unfold valueAfter
  split
  · rfl
  · cases isSwitch <;> simp [hp]

theorem valueAfter_consumed_le {isSwitch : Bool} {value : Argument}
    (h : valueAfter x rest.head? isSwitch = (value, consumed)) : consumed ≤ rest.length := by
  cases rest with
  | nil =>
    revert h
    unfold valueAfter
    split
    · rintro ⟨⟩
      exact Nat.le_refl _
    · cases isSwitch <;> · rintro ⟨⟩; exact Nat.le_refl _
  | cons e rest =>
    have hone := valueAfter_le_one x (e :: rest).head? isSwitch
    rw [h] at hone
    simp only [List.length_cons]
    omega

theorem Reads.consumed_le (h : Reads context pass x rest r consumed noted) :
    consumed ≤ rest.length := by
  cases h with
  | declared _ hvalue => exact valueAfter_consumed_le hvalue
  | unknown _ _ hvalue => exact valueAfter_consumed_le hvalue
  | ambiguous _ hvalue => exact valueAfter_consumed_le hvalue
  | @member m _ _ hmerge =>
    match rest, hmerge with
    | [], hmerge =>
      rcases context with ⟨_, _ | _, _⟩ <;> cases (Prod.mk.inj hmerge).1
    | [adjacent], hmerge =>
      simp [Owner.consumed_eq_false hmerge]
    | _ :: _ :: _, _ => split <;> simp

theorem Reads.before_parameter (h : Reads context pass x rest r consumed noted)
    (hp : p.isParameter = true) (tail : List Element) :
    Reads context pass x (rest ++ p :: tail) r consumed noted := by
  have hvalue (isSwitch : Bool) : valueAfter x (rest ++ p :: tail).head? isSwitch =
      valueAfter x rest.head? isSwitch := by
    cases rest with
    | nil => exact valueAfter_parameter hp isSwitch
    | cons => rfl
  have hmerge : Owner.merge context.types x (rest ++ p :: tail).head? (rest ++ p :: tail)[1]? =
      Owner.merge context.types x rest.head? rest[1]? := by
    match rest with
    | [] => exact Owner.merge_adjacent_parameter hp _
    | [a] => exact Owner.merge_value_parameter hp _
    | _ :: _ :: _ => rfl
  cases h with
  | declared hfound h => exact .declared hfound ((hvalue _).trans h)
  | member hfound h => exact .member hfound (hmerge.trans h)
  | unknown hfound hm h => exact .unknown hfound (hmerge.trans hm) ((hvalue _).trans h)
  | ambiguous hfound h => exact .ambiguous hfound ((hvalue _).trans h)

theorem Pass.anchorAt_none (index nameSpan consumed : Nat) (key : Text) (pass : Pass) :
    pass.anchorAt ⟨declared, types, none⟩ index nameSpan consumed key = pass := rfl

theorem Pass.run_before_parameter (declared : List Parameter) (types : Option TypeRegistry)
    (hp : p.isParameter = true) (tail : List Element) (index : Nat) (rest : List Element)
    (pass : Pass) :
    run ⟨declared, types, none⟩ index 0 (rest ++ p :: tail) pass =
        run ⟨declared, types, none⟩ (index + rest.length) 0 (p :: tail)
          (run ⟨declared, types, none⟩ index 0 rest pass) ∧
      readings ⟨declared, types, none⟩ index 0 (rest ++ p :: tail) pass =
        readings ⟨declared, types, none⟩ index 0 rest pass ++
          readings ⟨declared, types, none⟩ (index + rest.length) 0 (p :: tail)
            (run ⟨declared, types, none⟩ index 0 rest pass) := by
  match rest with
  | [] => exact ⟨rfl, rfl⟩
  | e :: rest =>
    cases he : e.isParameter with
    | false =>
      have ih := run_before_parameter declared types hp tail (index + 1) rest
        (pass.takeValue ⟨declared, types, none⟩ index e)
      rw [List.length_cons, ← Nat.add_assoc, Nat.add_right_comm, List.cons_append, run_value he,
        run_value he, readings, readings, if_neg (by simp [he]), if_neg (by simp [he])]
      exact ih
    | true =>
      obtain ⟨r, consumed, noted, hr⟩ := exists_reads ⟨declared, types, none⟩ pass e rest
      have hle := hr.consumed_le
      have hreads := hr.before_parameter hp tail
      have ih := run_before_parameter declared types hp tail (index + 1 + consumed)
        (rest.drop consumed) (r.after noted pass)
      have hindex : index + 1 + consumed + (rest.drop consumed).length =
          index + (e :: rest).length := by
        rw [List.length_drop, List.length_cons]
        omega
      rw [hindex, ← List.drop_append_of_le_length hle] at ih
      rw [List.cons_append, run_parameter he hreads, run_parameter he hr, anchorAt_none,
        readings, readings, if_pos he, if_pos he, hreads.read_eq, hr.read_eq]
      dsimp only
      rw [readings_skip _ _ consumed (rest ++ p :: tail), readings_skip _ _ consumed rest,
        List.cons_append]
      exact ⟨ih.1, congrArg (r :: ·) ih.2⟩
termination_by rest.length
decreasing_by
  all_goals
    simp only [List.length_drop, List.length_cons]
    omega

theorem Pass.readings_values {es : List Element} (h : ∀ e ∈ es, e.isParameter = false)
    (index skip : Nat) (pass : Pass) : readings context index skip es pass = [] := by
  induction es generalizing index skip pass with
  | nil => cases skip <;> rfl
  | cons e es ih =>
    obtain ⟨he, hes⟩ := List.forall_mem_cons.mp h
    cases skip with
    | succ skip => exact ih hes _ _ _
    | zero =>
      rw [readings, if_neg (by simp [he])]
      exact ih hes _ _ _

variable {before tail : List Element}

/-- A parameter with nothing but values behind it is read last, from where the elements in front
lead to. -/
theorem readings_before_parameter (hb : before ≠ []) (hp : p.isParameter = true)
    (htail : ∀ e ∈ tail, e.isParameter = false) :
    readings declared types (before ++ p :: tail) = readings declared types before ++
      [(Pass.read ⟨declared, types, none⟩ (gathered declared types before) p tail).1] := by
  obtain ⟨command, rest, rfl⟩ := List.exists_cons_of_ne_nil hb
  have hreadings := (Pass.run_before_parameter declared types hp tail 1 rest
    (Pass.start declared)).2
  rw [readings, List.cons_append, List.drop_one, List.tail_cons, hreadings]
  refine congrArg (_ ++ ·) ?_
  rw [Pass.readings, if_pos hp]
  exact congrArg (_ :: ·) (Pass.readings_values htail _ _ _)

theorem gathered_before_parameter (hb : before ≠ []) (hp : p.isParameter = true)
    (hr : Reads ⟨declared, types, none⟩ (gathered declared types before) p tail r tail.length
      noted) :
    gathered declared types (before ++ p :: tail) =
      r.after noted (gathered declared types before) := by
  obtain ⟨command, rest, rfl⟩ := List.exists_cons_of_ne_nil hb
  have hrun := (Pass.run_before_parameter declared types hp tail 1 rest
    (Pass.start declared)).1
  rw [gathered, List.cons_append, List.drop_one, List.tail_cons, hrun]
  exact (Pass.run_parameter hp hr _).trans (by rw [List.drop_length, Pass.run]; rfl)

section Pair

open Owner

variable {registry : TypeRegistry} {owner : OwnerType} {m : Attachable} {o name : Text}
  {e adjacent : Element} {typed : Text}

theorem Reads.member_iff
    (h : Reads ⟨declared, some registry, none⟩ pass e [adjacent] r consumed noted)
    (htouches : Touches e adjacent typed) (hsplit : split? typed = some (o, name, none))
    (hresolve : registry.resolve o = some owner) :
    (∃ a, r = .member a ∧ a.owner = owner ∧ a.member = m) ↔
      pass.found e.text = [] ∧ (findMember owner name none).1 = some m := by
  have hmerge {found : Attachable} (hfind : (findMember owner name none).1 = some found) :
      ∃ noted, merge (some registry) e (some adjacent) none =
        (some (merged owner found none false), noted) := by
    obtain ⟨_, hmerge⟩ := htouches.merge_eq hsplit hresolve hfind (rfl : rawValue none none = _)
    exact ⟨_, hmerge⟩
  cases h with
  | declared hfound _ => simp [hfound]
  | ambiguous hfound _ => simp [hfound]
  | @member a _ hfound hread =>
    cases hfind : (findMember owner name none).1 with
    | none =>
      have hnone := htouches.merge_of_unfound hsplit hresolve hfind none
      rw [show merge (some registry) e (some adjacent) none = _ from hread] at hnone
      cases hnone
    | some found =>
      obtain ⟨_, hfound'⟩ := hmerge hfind
      obtain rfl : a = merged owner found none false :=
        Option.some.inj (Prod.mk.inj (hread.symm.trans hfound')).1
      simp [hfound, merged]
  | unknown hfound hread _ =>
    refine iff_of_false (by simp) fun hmember => ?_
    obtain ⟨_, hfound'⟩ := hmerge hmember.2
    cases (Prod.mk.inj (hread.symm.trans hfound')).1

theorem Reads.member_consumed {a : AttachedMatch}
    (h : Reads ⟨declared, some registry, none⟩ pass e [adjacent] (.member a) consumed noted) :
    consumed = [adjacent].length := by
  cases h with
  | member _ hmerge =>
    rw [consumed_eq_false hmerge]
    rfl

/-- A pair at the end of an invocation is read last. As a member it is attached under its key. -/
theorem bind_pair (hb : before ≠ []) (htouches : Touches e adjacent typed)
    (hsplit : split? typed = some (o, name, none)) (hresolve : registry.resolve o = some owner) :
    ∃ r, readings declared (some registry) (before ++ [e, adjacent]) =
        readings declared (some registry) before ++ [r] ∧
      ((∃ a, r = .member a ∧ a.owner = owner ∧ a.member = m) ↔
        (gathered declared (some registry) before).found e.text = [] ∧
          (findMember owner name none).1 = some m) ∧
      ∀ a, r = .member a → ∀ cursor,
        (bind (before ++ [e, adjacent]) cursor declared (some registry)).attached.get? a.name =
          some a := by
  obtain ⟨r, consumed, noted, hr⟩ := exists_reads ⟨declared, some registry, none⟩
    (gathered declared (some registry) before) e [adjacent]
  refine ⟨r, ?_, hr.member_iff htouches hsplit hresolve, ?_⟩
  · rw [readings_before_parameter hb htouches.parameter (by simpa using htouches.value),
      hr.read_eq]
  · rintro a rfl cursor
    obtain rfl := hr.member_consumed
    obtain ⟨anchor, hrun⟩ :=
      exists_anchor (before ++ [e, adjacent]) cursor declared (some registry)
    have hattached : (bind (before ++ [e, adjacent]) cursor declared (some registry)).attached =
        (gathered declared (some registry) (before ++ [e, adjacent])).attached := by
      rw [bind, hrun]
      rfl
    rw [hattached, gathered_before_parameter hb htouches.parameter hr]
    exact Entries.get?_set_self ..

end Pair

end Binding

end CommandShell
