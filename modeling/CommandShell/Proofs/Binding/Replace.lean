import CommandShell.Proofs.Binding.Cursor

/-!
Another value in the last place of an invocation: as long as nothing was amiss, whatever took the
old value takes the new one.
-/

set_option autoImplicit false

namespace CommandShell

/-- Two elements that only differ in the values that they give. -/
structure Element.SameRole (e e' : Element) : Prop where
  isParameter : e.isParameter = e'.isParameter
  name : e.isParameter = true → e.text = e'.text

namespace Owner

theorem rawValue_of_kept {inline raw : Option Text} {e e' : Element}
    (h : rawValue inline (some e) = (raw, false)) (he : e.isParameter = e'.isParameter) :
    rawValue inline (some e') = (raw, false) := by
  revert h
  unfold rawValue
  split
  · exact id
  · cases hp : e.isParameter <;> simp [← he, hp]

theorem merge_of_kept {types : Option TypeRegistry} {parameter : Element}
    {adjacent : Option Element} {e e' : Element} {m : AttachedMatch} {noted : List Diagnostic}
    (h : merge types parameter adjacent (some e) = (some m, noted)) (hm : m.consumed = false)
    (he : e.isParameter = e'.isParameter) :
    merge types parameter adjacent (some e') = (some m, noted) := by
  revert h
  fun_cases merge types parameter adjacent (some e) with
  | case1 | case2 | case3 | case4 | case6 =>
    intro h
    cases (Prod.mk.inj h).1
  | case5 types a hadjacent ownerName memberName inline hsplit owner howner member found hfind raw
      consumed hraw offset d failed hconvert =>
    intro h
    obtain ⟨hm', rfl⟩ := Prod.mk.inj h
    obtain rfl := Option.some.inj hm'
    obtain rfl : consumed = false := hm
    have hkept := rawValue_of_kept hraw he
    simp only [merge, if_neg hadjacent, hsplit, howner, hfind, hkept]
    simp only [offset] at hconvert
    rw [hconvert]

end Owner

namespace Binding

theorem misnamed_ne_nil {context : Context} {pass : Pass} {typed : Text} {found : List Parameter}
    (h : typed ≠ [] ∨ found ≠ []) (offset : Nat) :
    misnamed context pass typed found offset ≠ [] := by
  unfold misnamed
  split
  · simp
  · rename_i hf
    have ht : typed ≠ [] := h.resolve_right (by simpa using hf)
    rw [if_neg (by simpa using ht)]
    dsimp only
    split <;> simp

theorem valueAfter_of_kept {parameter e e' : Element} {isSwitch : Bool} {value : Argument}
    (h : valueAfter parameter (some e) isSwitch = (value, 0))
    (he : e.isParameter = e'.isParameter) :
    valueAfter parameter (some e') isSwitch = (value, 0) := by
  revert h
  unfold valueAfter
  split
  · exact id
  · cases isSwitch <;> cases hp : e.isParameter <;> simp [← he, hp]

variable {context : Context} {pass : Pass} {x e e' : Element} {more : List Element} {r : Reading}
  {consumed : Nat}

theorem Reads.replace_last (h : Reads context pass x (more ++ [e]) r consumed [])
    (hx : x.text ≠ []) (hmore : consumed ≤ more.length) (he : e.isParameter = e'.isParameter) :
    Reads context pass x (more ++ [e']) r consumed [] := by
  generalize hnoted : ([] : List Diagnostic) = noted at h
  cases h with
  | @declared p value consumed hfound hvalue =>
    refine .declared hfound ?_
    cases more with
    | nil =>
      obtain rfl : consumed = 0 := Nat.le_zero.mp hmore
      exact valueAfter_of_kept hvalue he
    | cons a more => exact hvalue
  | @member m noted hfound hmerge =>
    subst hnoted
    refine .member hfound ?_
    match more with
    | [] => split at hmore <;> simp at hmore
    | [a] =>
      have hm : m.consumed = false := by
        cases hm : m.consumed with
        | false => rfl
        | true => simp [hm] at hmore
      exact Owner.merge_of_kept hmerge hm he
    | a :: b :: more => exact hmerge
  | unknown _ _ _ =>
    exact absurd (List.append_eq_nil_iff.mp hnoted.symm).2 (misnamed_ne_nil (.inl hx) _)
  | ambiguous _ _ => exact absurd hnoted.symm (misnamed_ne_nil (.inl hx) _)

theorem Step.errors_prefix {y z : Place} (h : Step context y z) :
    y.pass.errors <+: z.pass.errors := by
  cases h with
  | value => exact List.prefix_rfl
  | parameter => simp only [Reading.after_errors, List.prefix_append]

theorem eq_nil_of_isPrefix {α : Type} {xs ys : List α} (h : xs <+: ys) (hy : ys = []) :
    xs = [] := by
  rw [hy] at h
  exact List.prefix_nil.mp h

variable {declared : List Parameter} {before : List Element}

theorem Steps.replace_last (hb : before ≠ [])
    (hnames : ∀ x ∈ before, x.isParameter = true → x.text ≠ [])
    (he : e.isParameter = e'.isParameter) {z : Place}
    (h : Steps context (.first declared (before ++ [e])) z) (hz : z.index ≤ before.length)
    (herrors : z.pass.errors = []) :
    Steps context (.first declared (before ++ [e']))
      ⟨z.index, before.drop z.index ++ [e'], z.pass⟩ := by
  have hpos : 1 ≤ before.length := List.length_pos_iff.mpr hb
  induction h with
  | refl =>
    simp only [Place.first, List.drop_append_of_le_length hpos]
    exact .refl
  | @tail y z hy hstep ih =>
    have hlt := hstep.index_lt
    have hyerrors := eq_nil_of_isPrefix hstep.errors_prefix herrors
    refine .tail (ih (by omega) hyerrors) ?_
    have hrest := (Steps.sound hy (Place.sound_first declared (before ++ [e]))).rest
    have hylt : y.index < before.length := by omega
    rw [List.drop_append_of_le_length (Nat.le_of_lt hylt), List.drop_eq_getElem_cons hylt] at hrest
    rw [List.drop_eq_getElem_cons hylt]
    have hmem := List.getElem_mem hylt
    generalize before[y.index] = x at hrest hmem
    cases hstep with
    | @value index x' rest pass hx =>
      obtain ⟨rfl, hrest⟩ := List.cons.inj hrest
      exact .value hx
    | @parameter index consumed x' rest pass r noted hx hr =>
      obtain ⟨rfl, hmore⟩ := List.cons.inj hrest
      obtain rfl : rest = before.drop (index + 1) ++ [e] := hmore
      rw [Reading.after_errors] at herrors
      obtain ⟨-, rfl⟩ := List.append_eq_nil_iff.mp herrors
      simp only at hz hlt
      have hle : consumed ≤ (before.drop (index + 1)).length := by
        rw [List.length_drop]
        omega
      have hreads := hr.replace_last (hnames _ hmem hx) hle he
      have hstep' : Step context ⟨index, x' :: (before.drop (index + 1) ++ [e']), pass⟩
          ⟨index + 1 + consumed, (before.drop (index + 1) ++ [e']).drop consumed,
            r.after [] pass⟩ := .parameter hx hreads
      rw [List.drop_append_of_le_length hle, List.drop_drop] at hstep'
      exact hstep'

theorem inlineValue_automatic {name : Text} {d : Datum} (h : Argument.automatic? name = some d) :
    inlineValue ('$' :: name) = .known d := by
  simp only [inlineValue, h]

theorem inlineValue_text {v : Text}
    (h : ∀ name, v = '$' :: name → Argument.automatic? name = none) :
    inlineValue v = .known (.text v) := by
  unfold inlineValue
  split
  · rw [h _ rfl]
  · rfl

def given (e : Element) : Argument :=
  match e.inline with
  | some inline => inlineValue inline
  | none => valueOf e

theorem given_of_value (he : e.isParameter = false) : given e = valueOf e := by
  cases e with
  | parameter => cases he
  | value => rfl

theorem valueAfter_eq_given (he : e.inline.isSome = true) (following : Option Element)
    (isSwitch : Bool) : valueAfter e following isSwitch = (given e, 0) := by
  obtain ⟨inline, hi⟩ := Option.isSome_iff_exists.mp he
  simp only [valueAfter, given, hi]

theorem valueAfter_of_taken {parameter : Element} {isSwitch : Bool} {value : Argument}
    (h : valueAfter parameter (some e) isSwitch = (value, consumed + 1))
    (he : e.isParameter = e'.isParameter) :
    consumed = 0 ∧ valueAfter parameter (some e') isSwitch = (given e', 1) := by
  revert h
  unfold valueAfter
  split
  · simp
  · cases isSwitch <;> cases hp : e.isParameter <;> simp [← he, hp, given_of_value, eq_comm]

variable {types : Option TypeRegistry} {p : Parameter}

/-- What a parameter takes by name is not taken from it by place. -/
theorem finish_named_of_declared {y : Place} (h : y.Sound before) (value : Argument)
    (noted : List Diagnostic) (cursorElement : Option Element) (a : Option Anchor) :
    (Pass.finish cursorElement { (Reading.declared p value).after noted y.pass with
      anchor := a }).named.get? p.name = some value := by
  rw [Pass.finish_named, Entries.get?_update_of_notMem, Reading.after, Entries.get?_set_self]
  rw [List.map_map]
  intro hmem
  obtain ⟨⟨q, position, other⟩, hpair, hname⟩ := List.mem_map.mp hmem
  have hq := (byPlace_perm _).subset (List.of_mem_zip hpair).1
  obtain ⟨entry, hentry, rfl⟩ := List.mem_map.mp (List.mem_filter.mp hq).1
  obtain ⟨hin, hout⟩ := List.mem_filter.mp hentry
  rw [h.keyed entry hin] at hout
  simp only [Function.comp_apply] at hname
  simp [hname] at hout

theorem bind_eq_of_end {elements : List Element} {y : Place}
    (h : Steps ⟨declared, types, none⟩ (.first declared elements) y) (hy : y.rest = [])
    (cursor : Int) :
    ∃ cursorElement a, bind elements cursor declared types =
      Pass.finish cursorElement { y.pass with anchor := a } := by
  obtain ⟨a, ha⟩ := exists_anchor elements cursor declared types
  rw [gathered_eq h hy] at ha
  exact ⟨_, a, congrArg (Pass.finish _) ha⟩

theorem valueAfter_le_one (parameter : Element) (following : Option Element) (isSwitch : Bool) :
    (valueAfter parameter following isSwitch).2 ≤ 1 := by
  unfold valueAfter
  split
  · exact Nat.zero_le _
  · split
    · split <;> simp
    · exact Nat.zero_le _

theorem Reads.declared_or_member {rest : List Element}
    (h : Reads context pass x rest r consumed []) (hx : x.text ≠ []) :
    (∃ p value, r = .declared p value ∧ pass.found x.text = [p] ∧
      valueAfter x rest.head? p.isSwitch = (value, consumed)) ∨ ∃ m, r = .member m := by
  generalize hnoted : ([] : List Diagnostic) = noted at h
  cases h with
  | @declared p value consumed hfound hvalue => exact .inl ⟨p, value, rfl, hfound, hvalue⟩
  | @member m noted hfound hmerge => exact .inr ⟨m, rfl⟩
  | unknown _ _ _ =>
    exact absurd (List.append_eq_nil_iff.mp hnoted.symm).2 (misnamed_ne_nil (.inl hx) _)
  | ambiguous _ _ => exact absurd hnoted.symm (misnamed_ne_nil (.inl hx) _)

theorem exists_last_step (hb : before ≠ []) (e : Element) (declared : List Parameter)
    (types : Option TypeRegistry) : ∃ z w,
      Steps ⟨declared, types, none⟩ (.first declared (before ++ [e])) z ∧
      Step ⟨declared, types, none⟩ z w ∧ z.index ≤ before.length ∧ before.length < w.index ∧
      w.rest = [] := by
  have hlength : (before ++ [e]).length = before.length + 1 := by simp
  obtain ⟨y, hy, hend, hsound, -⟩ := exists_end_first declared types (before ++ [e])
  have hlast : before.length < y.index := by
    have hdrop := hsound.rest
    rw [hend, eq_comm, List.drop_eq_nil_iff] at hdrop
    omega
  obtain ⟨z, w, hz, hw, hzc, hcw⟩ := Steps.exists_over hy (List.length_pos_iff.mpr hb) hlast
  refine ⟨z, w, hz, hw, hzc, hcw, ?_⟩
  rw [(Steps.sound (hz.tail hw) (Place.sound_first _ _)).rest, List.drop_eq_nil_iff]
  omega

/-- A declared parameter to which the last element gave a value, by its name or from behind it, is
given that of the new one. -/
theorem exists_step_declared {index : Nat} {rest : List Element} {value : Argument}
    (hx : x.isParameter = true) (hrest : x :: rest = before.drop index ++ [e])
    (hindex : index ≤ before.length) (hover : before.length ≤ index + consumed)
    (hfound : pass.found x.text = [p])
    (hvalue : valueAfter x rest.head? p.isSwitch = (value, consumed))
    (hs : Element.SameRole e e') (hinline : e'.isParameter = true → e'.inline.isSome = true) :
    ∃ y, Step context ⟨index, before.drop index ++ [e'], pass⟩ y ∧ y.rest = [] ∧
      y.pass = (Reading.declared p (given e')).after [] pass := by
  rcases Nat.lt_or_eq_of_le hindex with hlt | rfl
  · -- the parameter stands before the last element, and takes it
    rw [List.drop_eq_getElem_cons hlt] at hrest ⊢
    obtain ⟨rfl, hmore⟩ := List.cons.inj hrest
    obtain rfl : rest = before.drop (index + 1) ++ [e] := hmore
    have hone := valueAfter_le_one before[index] (before.drop (index + 1) ++ [e]).head? p.isSwitch
    rw [hvalue] at hone
    have hnil : before.drop (index + 1) = [] := by
      rw [List.drop_eq_nil_iff]
      simp only at hone
      omega
    obtain ⟨n, rfl⟩ : ∃ n, consumed = n + 1 := ⟨consumed - 1, by omega⟩
    rw [hnil] at hvalue ⊢
    obtain ⟨-, htaken⟩ := valueAfter_of_taken hvalue hs.isParameter
    exact ⟨_, .parameter hx (.declared hfound htaken), rfl, rfl⟩
  · -- the parameter is the last element itself
    simp only [List.drop_length, List.nil_append] at hrest ⊢
    obtain ⟨rfl, rfl⟩ := List.cons.inj hrest
    have hx' : e'.isParameter = true := hs.isParameter ▸ hx
    rw [hs.name hx] at hfound
    exact ⟨_, .parameter hx' (.declared hfound (valueAfter_eq_given (hinline hx') _ _)), rfl, rfl⟩

theorem bind_named_replace (hb : before ≠ [])
    (hnames : ∀ x ∈ before ++ [e], x.isParameter = true → x.text ≠ [])
    (hs : Element.SameRole e e') (hinline : e'.isParameter = true → e'.inline.isSome = true)
    {cursor : Int} (hc : Element.indexAt? (before ++ [e]) cursor = some before.length)
    {key : Text} (herrors : (bind (before ++ [e]) cursor declared types).errors = [])
    (hkey : (bind (before ++ [e]) cursor declared types).inUse = some (.name key))
    (hattached : (bind (before ++ [e]) cursor declared types).attached.get? key = none)
    (other : Int) :
    (bind (before ++ [e']) other declared types).named.get? key = some (given e') := by
  obtain ⟨z, w, hz, hw, hzc, hcw, hend⟩ := exists_last_step hb e declared types
  obtain ⟨cursorElement, a, hbind⟩ := bind_eq_of_end (hz.tail hw) hend cursor
  rw [hbind] at herrors hattached
  have hwerrors : w.pass.errors = [] := herrors
  have hreplace := Steps.replace_last hb (fun x hx => hnames x (List.mem_append_left _ hx))
    hs.isParameter hz hzc (eq_nil_of_isPrefix hw.errors_prefix hwerrors)
  have hrest := (Steps.sound hz (Place.sound_first _ _)).rest
  rw [List.drop_append_of_le_length hzc] at hrest
  cases hw with
  | @value index x rest pass hx =>
    obtain rfl : index = before.length := Nat.le_antisymm hzc (Nat.le_of_lt_succ hcw)
    simp only [List.drop_length, List.nil_append] at hrest hreplace
    obtain ⟨rfl, rfl⟩ := List.cons.inj hrest
    have hstep : Step ⟨declared, types, none⟩ ⟨before.length, [e'], pass⟩
        ⟨before.length + 1, [],
          { pass with values := pass.values ++ [(before.length, valueOf e')] }⟩ :=
      .value (hs.isParameter ▸ hx)
    obtain ⟨cursorElement', a', hbind'⟩ := bind_eq_of_end (hreplace.tail hstep) rfl other
    rcases bind_inUse_of_unclaimed hc (.intro hz hx) with ⟨p, hp, -, hname⟩ | ⟨k, -, -, hname⟩
    · obtain rfl : p.name = key := InUse.name.inj (Option.some.inj (hname.symm.trans hkey))
      rw [takers, gathered_eq (hz.tail (.value hx)) rfl] at hp
      have hvalue : (pass.values ++ [(before.length, valueOf e')])[pass.values.length]? =
          some (before.length, valueOf e') := by simp
      rw [hbind', given_of_value (hs.isParameter ▸ hx)]
      exact finish_named_of_taken (Steps.sound (hreplace.tail hstep) (Place.sound_first _ _))
        cursorElement' a' hvalue hp
    · cases hname.symm.trans hkey
  | @parameter index consumed x rest pass r noted hx hr =>
    change x :: rest = before.drop index ++ [e] at hrest
    have hover : before.length ≤ index + consumed := by simp only at hcw; omega
    have hclaimed := bind_inUse_of_claimed hc (.intro hz hx hr hzc hover)
    obtain rfl : r.key = key := InUse.name.inj (Option.some.inj (hclaimed.symm.trans hkey))
    rw [Reading.after_errors] at hwerrors
    obtain ⟨-, rfl⟩ := List.append_eq_nil_iff.mp hwerrors
    have hmem : x ∈ before ++ [e] := by
      have hx := List.mem_cons_self (a := x) (l := rest)
      rw [hrest] at hx
      exact (List.mem_append.mp hx).elim
        (fun h => List.mem_append_left _ (List.mem_of_mem_drop h)) (List.mem_append_right _)
    rcases hr.declared_or_member (hnames x hmem hx) with ⟨p, value, rfl, hfound, hvalue⟩ | ⟨m, rfl⟩
    · obtain ⟨y, hstep, hy, hpass⟩ := exists_step_declared hx hrest hzc hover hfound hvalue hs
        hinline
      obtain ⟨cursorElement', a', hbind'⟩ := bind_eq_of_end (hreplace.tail hstep) hy other
      rw [hbind', hpass]
      exact finish_named_of_declared (Steps.sound hz (Place.sound_first _ _)) _ _ _ _
    · simp [Pass.finish, Reading.after, Reading.key] at hattached

end Binding

end CommandShell
