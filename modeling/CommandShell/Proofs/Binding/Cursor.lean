import CommandShell.Proofs.Binding.Pass
import CommandShell.Proofs.Element.Layout

/-!
The parameter in use is what the element under the cursor became: the name of the parameter that it
is or that consumed it, the name of the parameter that took it by place, or its place among the
values that no parameter took.
-/

set_option autoImplicit false

namespace CommandShell.Binding

/-- What is gathered from the elements of an invocation before places are looked at. -/
def gathered (declared : List Parameter) (types : Option TypeRegistry) (elements : List Element) :
    Pass :=
  Pass.run ⟨declared, types, none⟩ 1 0 (elements.drop 1) (Pass.start declared)

def takers (declared : List Parameter) (types : Option TypeRegistry) (elements : List Element) :
    List Parameter :=
  byPlace ((gathered declared types elements).available.map (·.2))

section

variable (declared : List Parameter) (types : Option TypeRegistry) (elements : List Element)

/-- The element at a position is a parameter element of that key, or one that such an element
consumed. -/
inductive Claimed : Nat → Text → Prop where
  | intro {index consumed position : Nat} {e : Element} {rest : List Element} {pass : Pass}
      {r : Reading} {noted : List Diagnostic} :
      Steps ⟨declared, types, none⟩ (.first declared elements) ⟨index, e :: rest, pass⟩ →
      e.isParameter = true → Reads ⟨declared, types, none⟩ pass e rest r consumed noted →
      index ≤ position → position ≤ index + consumed →
      Claimed position r.key

/-- The element at a position is a value that no parameter element consumed, and so many of these
come before it. -/
inductive Unclaimed : Nat → Element → Nat → Prop where
  | intro {position : Nat} {e : Element} {rest : List Element} {pass : Pass} :
      Steps ⟨declared, types, none⟩ (.first declared elements) ⟨position, e :: rest, pass⟩ →
      e.isParameter = false →
      Unclaimed position e pass.values.length

end

variable {declared : List Parameter} {types : Option TypeRegistry} {elements : List Element}

theorem run_of_end (cursor : Option Nat) {x y : Place} (h : Steps ⟨declared, types, none⟩ x y)
    (hy : y.rest = []) (a : Option Anchor) (hc : ∀ c, cursor = some c → c < x.index) :
    Pass.run ⟨declared, types, cursor⟩ x.index 0 x.rest { x.pass with anchor := a } =
      { y.pass with anchor := a } := by
  rw [h.run cursor a fun c h h' => absurd (hc c h) (Nat.not_lt_of_le h'), hy, Pass.run]

theorem gathered_eq {y : Place} (h : Steps ⟨declared, types, none⟩ (.first declared elements) y)
    (hy : y.rest = []) : gathered declared types elements = y.pass := by
  have hrun := run_of_end none h hy none (by simp)
  have hnone := (Steps.sound h (Place.sound_first declared elements)).unanchored
  exact hrun.trans (by rw [← hnone])

theorem exists_end_first (declared : List Parameter) (types : Option TypeRegistry)
    (elements : List Element) :
    ∃ y, Steps ⟨declared, types, none⟩ (.first declared elements) y ∧ y.rest = [] ∧
      y.Sound elements ∧ gathered declared types elements = y.pass := by
  obtain ⟨y, hy, hend⟩ := exists_end ⟨declared, types, none⟩ (.first declared elements)
  exact ⟨y, hy, hend, Steps.sound hy (Place.sound_first declared elements), gathered_eq hy hend⟩

/-- The pass with the cursor on an element: up to the step that takes the element nothing is found,
and behind it what was found is kept. -/
theorem run_over {z w : Place} {c : Nat} {a : Option Anchor}
    (hz : Steps ⟨declared, types, none⟩ (.first declared elements) z)
    (hw : Step ⟨declared, types, none⟩ z w) (hzc : z.index ≤ c) (hcw : c < w.index)
    (hrun : Pass.run ⟨declared, types, some c⟩ z.index 0 z.rest { z.pass with anchor := none } =
      Pass.run ⟨declared, types, some c⟩ w.index 0 w.rest { w.pass with anchor := a }) :
    Pass.run ⟨declared, types, some c⟩ 1 0 (elements.drop 1) (Pass.start declared) =
        { gathered declared types elements with anchor := a } ∧
      w.pass.values <+: (gathered declared types elements).values := by
  obtain ⟨y, hy, hend⟩ := exists_end ⟨declared, types, none⟩ w
  have hbefore := Steps.run (some c) hz none fun c' h _ => by
    rw [← Option.some.inj h]
    exact hzc
  have hafter := run_of_end (some c) hy hend a fun c' h => by
    rw [← Option.some.inj h]
    exact hcw
  rw [gathered_eq (hz.trans (.head hw hy)) hend]
  exact ⟨(hbefore.trans hrun).trans hafter, Steps.values_prefix hy⟩

/-- With the cursor on what a parameter element takes, it is found there, and on the name as many
elements far as the name goes. -/
theorem run_reads {index consumed c : Nat} {e : Element} {rest : List Element} {pass : Pass}
    {r : Reading} {noted : List Diagnostic}
    (hsteps : Steps ⟨declared, types, none⟩ (.first declared elements) ⟨index, e :: rest, pass⟩)
    (he : e.isParameter = true) (hr : Reads ⟨declared, types, none⟩ pass e rest r consumed noted)
    (hle : index ≤ c) (hge : c ≤ index + consumed) :
    Pass.run ⟨declared, types, some c⟩ 1 0 (elements.drop 1) (Pass.start declared) =
      { gathered declared types elements with
        anchor := some ⟨index, decide (c ≤ index + r.nameSpan), some r.key⟩ } := by
  have hon : (decide (index ≤ c) && decide (c ≤ index + consumed)) = true := by
    simp [hle, hge]
  refine (run_over hsteps (.parameter he hr) hle (by simp only; omega) ?_).1
  have hafter : r.after noted { pass with anchor := none } =
      { r.after noted pass with anchor := none } := by cases r <;> rfl
  rw [Pass.run_parameter he (hr.anchored (some c) none), hafter]
  simp only [Pass.anchorAt, hon, if_true]

theorem Claimed.run {c : Nat} {key : Text} (h : Claimed declared types elements c key) :
    ∃ index onName,
      Pass.run ⟨declared, types, some c⟩ 1 0 (elements.drop 1) (Pass.start declared) =
        { gathered declared types elements with anchor := some ⟨index, onName, some key⟩ } := by
  obtain ⟨hsteps, he, hr, hle, hge⟩ := h
  exact ⟨_, _, run_reads hsteps he hr hle hge⟩

theorem Unclaimed.run {c before : Nat} {e : Element}
    (h : Unclaimed declared types elements c e before) :
    Pass.run ⟨declared, types, some c⟩ 1 0 (elements.drop 1) (Pass.start declared) =
        { gathered declared types elements with anchor := some ⟨c, false, none⟩ } ∧
      (gathered declared types elements).values[before]? = some (c, valueOf e) := by
  obtain ⟨hsteps, he⟩ := h
  rename_i rest pass
  obtain ⟨hrun, more, hmore⟩ := run_over hsteps (.value he) (Nat.le_refl c)
    (Nat.lt_succ_self c) (a := some ⟨c, false, none⟩) (by
      rw [Pass.run_value he, Pass.takeValue, if_pos rfl])
  refine ⟨hrun, ?_⟩
  simp [← hmore]

theorem Unclaimed.getElem? {c before : Nat} {e : Element}
    (h : Unclaimed declared types elements c e before) : elements[c]? = some e := by
  obtain ⟨hsteps, -⟩ := h
  exact (Steps.getElem? hsteps).1

theorem claimed_or_unclaimed {c : Nat} (hc : 0 < c) (hlt : c < elements.length) :
    (∃ key, Claimed declared types elements c key) ∨
      ∃ e before, Unclaimed declared types elements c e before := by
  obtain ⟨y, hy, hend, hsound, -⟩ := exists_end_first declared types elements
  have hlast : c < y.index := by
    have hdrop := hsound.rest
    rw [hend, eq_comm, List.drop_eq_nil_iff] at hdrop
    omega
  obtain ⟨z, w, hz, hw, hzc, hcw⟩ := Steps.exists_over hy hc hlast
  cases hw with
  | value he =>
    obtain rfl : c = _ := Nat.le_antisymm (Nat.le_of_lt_succ hcw) hzc
    exact .inr ⟨_, _, .intro hz he⟩
  | parameter he hr => exact .inl ⟨_, .intro hz he hr hzc (by simp only at hcw; omega)⟩

theorem map_fst_zip_sublist {α β : Type} (xs : List α) (ys : List β) :
    ((xs.zip ys).map (·.1)).Sublist xs := by
  rw [List.zip_eq_zip_take_min, List.map_fst_zip (by simp)]
  exact List.take_sublist ..

theorem map_snd_zip_sublist {α β : Type} (xs : List α) (ys : List β) :
    ((xs.zip ys).map (·.2)).Sublist ys := by
  rw [List.zip_eq_zip_take_min, List.map_snd_zip (by simp)]
  exact List.take_sublist ..

theorem findIdx?_of_nodup {ns : List Nat} (h : ns.Nodup) {k n : Nat} (hk : ns[k]? = some n) :
    ns.findIdx? (· = n) = some k := by
  obtain ⟨hlt, hn⟩ := List.getElem?_eq_some_iff.mp hk
  refine List.findIdx?_eq_some_iff_getElem.mpr ⟨hlt, decide_eq_true hn, fun j hj hsame => ?_⟩
  have := h.getElem_inj_iff.mp ((of_decide_eq_true hsame).trans hn.symm)
  omega

theorem byPlace_perm (ps : List Parameter) :
    (byPlace ps).Perm (ps.filter (·.position.isSome)) := by
  refine ((List.mergeSort_perm _ _).map _).trans (.of_eq ?_)
  induction ps with
  | nil => rfl
  | cons p ps ih => cases hp : p.position <;> simp [hp, ih]

def Pass.placed (pass : Pass) : List (Parameter × Nat × Argument) :=
  (byPlace (pass.available.map (·.2))).zip pass.values

theorem Pass.finish_named (pass : Pass) (cursorElement : Option Element) :
    (pass.finish cursorElement).named =
      pass.named.update (pass.placed.map fun pair => (pair.1.name, pair.2.2)) := by
  simp only [finish, placed, Entries.update, List.foldl_map]

section

variable {x : Place} {position before : Nat} {value : Argument} {p : Parameter}

theorem Place.Sound.nodup_placed_keys (h : x.Sound elements) :
    (x.pass.placed.map fun pair => Text.lower pair.1.name).Nodup := by
  have hlower : ((x.pass.available.map (·.2)).map fun p => Text.lower p.name).Nodup := by
    rw [List.map_map]
    convert h.once using 1
    exact List.map_congr_left fun entry hm => (h.keyed entry hm).symm
  have hplaces : ((byPlace (x.pass.available.map (·.2))).map fun p => Text.lower p.name).Nodup := by
    rw [((byPlace_perm _).map _).nodup_iff]
    exact (List.filter_sublist.map _).nodup hlower
  have hsub := (map_fst_zip_sublist (byPlace (x.pass.available.map (·.2))) x.pass.values).map
    fun p => Text.lower p.name
  rw [List.map_map] at hsub
  exact hsub.nodup hplaces

theorem Place.Sound.nodup_placed_names (h : x.Sound elements) :
    (x.pass.placed.map (·.1.name)).Nodup := by
  refine List.Nodup.of_map Text.lower ?_
  rw [List.map_map]
  exact h.nodup_placed_keys

theorem Place.Sound.nodup_placed (h : x.Sound elements) :
    (x.pass.placed.map (·.2.1)).Nodup := by
  have hsub := (map_snd_zip_sublist (byPlace (x.pass.available.map (·.2))) x.pass.values).map (·.1)
  rw [List.map_map] at hsub
  exact hsub.nodup h.apart

theorem finish_named_of_taken (h : x.Sound elements) (cursorElement : Option Element)
    (a : Option Anchor) (hv : x.pass.values[before]? = some (position, value))
    (hp : (byPlace (x.pass.available.map (·.2)))[before]? = some p) :
    (Pass.finish cursorElement { x.pass with anchor := a }).named.get? p.name = some value := by
  have hpair : (p, position, value) ∈ x.pass.placed :=
    List.mem_of_getElem? (List.getElem?_zip_eq_some.mpr ⟨hp, hv⟩)
  rw [Pass.finish_named]
  refine Entries.get?_update_of_mem _ ?_ (List.mem_map_of_mem hpair)
  rw [List.map_map]
  exact h.nodup_placed_names

theorem finish_inUse_of_taken (h : x.Sound elements) (cursorElement : Option Element)
    (onName : Bool) (hv : x.pass.values[before]? = some (position, value))
    (hp : (byPlace (x.pass.available.map (·.2)))[before]? = some p) :
    (Pass.finish cursorElement { x.pass with
      anchor := some ⟨position, onName, none⟩ }).inUse = some (.name p.name) := by
  have hpair : (p, position, value) ∈ x.pass.placed :=
    List.mem_of_getElem? (List.getElem?_zip_eq_some.mpr ⟨hp, hv⟩)
  have hkeys : ((x.pass.placed.map fun pair => (pair.2.1, pair.1.name)).map (·.1)).Nodup := by
    rw [List.map_map]
    exact h.nodup_placed
  have hfind := Entries.find?_of_mem hkeys (List.mem_map_of_mem hpair)
  simp only [Pass.placed] at hfind
  simp only [Pass.finish, Option.bind_some, Anchor.inUse?, hfind]

theorem finish_left (h : x.Sound elements) (cursorElement : Option Element) (onName : Bool)
    (hv : x.pass.values[before]? = some (position, value))
    (hp : (byPlace (x.pass.available.map (·.2))).length ≤ before) :
    let b := Pass.finish cursorElement { x.pass with anchor := some ⟨position, onName, none⟩ }
    let k := before - (byPlace (x.pass.available.map (·.2))).length
    b.positional[k]? = some value ∧ b.inUse = some (.leftover k) := by
  have hlt := (List.getElem?_eq_some_iff.mp hv).1
  have hlength : x.pass.placed.length = (byPlace (x.pass.available.map (·.2))).length := by
    rw [Pass.placed, List.length_zip]
    omega
  have hleft : (x.pass.values.drop x.pass.placed.length)[before - x.pass.placed.length]? =
      some (position, value) := by
    rw [List.getElem?_drop, Nat.add_sub_cancel' (by omega), hv]
  -- the places of the values are apart, so the anchor is neither bound nor found before its own
  have hfind : (x.pass.placed.map fun pair => (pair.2.1, pair.1.name)).find?
      (·.1 = position) = none := by
    refine List.find?_eq_none.mpr fun entry he hposition => ?_
    obtain ⟨pair, hpair, rfl⟩ := List.mem_map.mp he
    obtain ⟨i, hi⟩ := List.mem_iff_getElem?.mp hpair
    have hvi := (List.getElem?_zip_eq_some.mp hi).2
    have hilt := (List.getElem?_eq_some_iff.mp hi).1
    have hsame : (x.pass.values.map (·.1))[i]? = (x.pass.values.map (·.1))[before]? := by
      rw [List.getElem?_map, List.getElem?_map, hvi, hv]
      simpa using hposition
    have := (List.getElem?_inj (by rw [List.length_map]; omega) h.apart).mp hsame
    omega
  have hindex := findIdx?_of_nodup (((List.drop_sublist _ _).map _).nodup h.apart)
    (show ((x.pass.values.drop x.pass.placed.length).map (·.1))[before - x.pass.placed.length]? =
        some position by rw [List.getElem?_map, hleft]; rfl)
  rw [← hlength]
  simp only [Pass.placed] at hleft hfind hindex ⊢
  constructor
  · simp only [Pass.finish, List.getElem?_map, hleft, Option.map_some]
  · simp only [Pass.finish, Option.bind_some, Anchor.inUse?, hfind, hindex, Option.map_some]

end

theorem run_outside {cursor : Option Nat} (h : cursor = none ∨ cursor = some 0) :
    Pass.run ⟨declared, types, cursor⟩ 1 0 (elements.drop 1) (Pass.start declared) =
      { gathered declared types elements with anchor := none } := by
  obtain ⟨y, hy, hend, -, hlast⟩ := exists_end_first declared types elements
  rw [hlast]
  refine run_of_end _ hy hend none fun c hc => ?_
  rcases h with rfl | rfl
  · cases hc
  · obtain rfl := Option.some.inj hc
    exact Nat.one_pos

theorem claimed_or_unclaimed_of_indexAt? (declared : List Parameter)
    (types : Option TypeRegistry) {cursor : Int} {c : Nat}
    (h : Element.indexAt? elements cursor = some c) (hc : 0 < c) :
    (∃ key, Claimed declared types elements c key) ∨
      ∃ e before, Unclaimed declared types elements c e before := by
  obtain ⟨e, he, -⟩ := Element.contains_of_indexAt? h
  exact claimed_or_unclaimed hc (List.getElem?_eq_some_iff.mp he).1

theorem exists_anchor (elements : List Element) (cursor : Int) (declared : List Parameter)
    (types : Option TypeRegistry) :
    ∃ a, Pass.run ⟨declared, types, Element.indexAt? elements cursor⟩ 1 0 (elements.drop 1)
      (Pass.start declared) = { gathered declared types elements with anchor := a } := by
  match hc : Element.indexAt? elements cursor with
  | none => exact ⟨none, run_outside (.inl rfl)⟩
  | some 0 => exact ⟨none, run_outside (.inr rfl)⟩
  | some (c + 1) =>
    rcases claimed_or_unclaimed_of_indexAt? declared types hc (Nat.succ_pos c) with
      ⟨key, h⟩ | ⟨e, before, h⟩
    · obtain ⟨index, onName, hrun⟩ := h.run
      exact ⟨_, hrun⟩
    · exact ⟨_, h.run.1⟩

/-- A binding is what is gathered, and what goes by place is set over that. -/
theorem bind_eq_update (elements : List Element) (cursor : Int) (declared : List Parameter)
    (types : Option TypeRegistry) :
    let b := bind elements cursor declared types
    let pass := gathered declared types elements
    b.named = pass.named.update (pass.placed.map fun pair => (pair.1.name, pair.2.2)) ∧
      b.unknown = pass.unknown ∧ b.attached = pass.attached := by
  obtain ⟨a, hrun⟩ := exists_anchor elements cursor declared types
  rw [bind, hrun]
  exact ⟨Pass.finish_named _ _, rfl, rfl⟩

/-- Two bindings of the same arguments, whatever the cursor of each is on. -/
structure Agrees (a b : Binding) : Prop where
  named : a.named = b.named
  unknown : a.unknown = b.unknown
  positional : a.positional = b.positional
  errors : a.errors = b.errors
  attached : a.attached = b.attached
  available : a.available = b.available

theorem agrees_of_gathered {others : List Element}
    (h : gathered declared types elements = gathered declared types others) (cursor other : Int) :
    Agrees (bind elements cursor declared types) (bind others other declared types) := by
  obtain ⟨a, ha⟩ := exists_anchor elements cursor declared types
  obtain ⟨b, hb⟩ := exists_anchor others other declared types
  simp only [bind, ha, hb, h]
  exact ⟨rfl, rfl, rfl, rfl, rfl, rfl⟩

theorem bind_agrees (elements : List Element) (cursor other : Int) (declared : List Parameter)
    (types : Option TypeRegistry) :
    Agrees (bind elements cursor declared types) (bind elements other declared types) :=
  agrees_of_gathered rfl cursor other

theorem Agrees.eq {a b : Binding} (h : Agrees a b) :
    a = { b with inUse := a.inUse, onName := a.onName, cursorElement := a.cursorElement } := by
  obtain ⟨hnamed, hunknown, hpositional, herrors, hattached, havailable⟩ := h
  cases a
  cases b
  simp_all only

/-- Wherever the cursor is, the same is bound, refused, noted and left; only what is said of the
cursor itself may differ. -/
theorem bind_cursor (elements : List Element) (cursor other : Int) (declared : List Parameter)
    (types : Option TypeRegistry) :
    let a := bind elements cursor declared types
    let b := bind elements other declared types
    a = { b with inUse := a.inUse, onName := a.onName, cursorElement := a.cursorElement } :=
  (bind_agrees elements cursor other declared types).eq

section InUse

variable {cursor : Int} {c : Nat}

theorem bind_inUse_of_claimed (hc : Element.indexAt? elements cursor = some c) {key : Text}
    (h : Claimed declared types elements c key) :
    (bind elements cursor declared types).inUse = some (.name key) := by
  obtain ⟨index, onName, hrun⟩ := h.run
  simp only [bind, hc, hrun, Pass.finish, Option.bind_some, Anchor.inUse?]

/-- A value under the cursor that no parameter claimed is that of the parameter that takes it by its
place, or else it is left over. -/
theorem bind_inUse_of_unclaimed (hc : Element.indexAt? elements cursor = some c) {e : Element}
    {before : Nat} (h : Unclaimed declared types elements c e before) :
    let b := bind elements cursor declared types
    let left := takers declared types elements
    (∃ p, left[before]? = some p ∧ b.named.get? p.name = some (valueOf e) ∧
        b.inUse = some (.name p.name)) ∨
      ∃ k, before = left.length + k ∧ b.positional[k]? = some (valueOf e) ∧
        b.inUse = some (.leftover k) := by
  intro b left
  obtain ⟨y, -, -, hsound, hlast⟩ := exists_end_first declared types elements
  obtain ⟨hrun, hvalue⟩ := h.run
  simp only [b, left, bind, hc, hrun, takers]
  rw [hlast] at hvalue ⊢
  cases hp : (byPlace (y.pass.available.map (·.2)))[before]? with
  | some p =>
    exact .inl ⟨p, rfl, finish_named_of_taken hsound _ _ hvalue hp,
      finish_inUse_of_taken hsound _ _ hvalue hp⟩
  | none =>
    have hle := List.getElem?_eq_none_iff.mp hp
    exact .inr ⟨_, (Nat.add_sub_cancel' hle).symm, finish_left hsound _ _ hvalue hle⟩

end InUse

/-- The parameter in use is what the element under the cursor became. -/
theorem bind_inUse (elements : List Element) (cursor : Int) (declared : List Parameter)
    (types : Option TypeRegistry) :
    let b := bind elements cursor declared types
    let left := takers declared types elements
    (b.inUse = none ↔
      Element.indexAt? elements cursor = none ∨ Element.indexAt? elements cursor = some 0) ∧
    ∀ c, Element.indexAt? elements cursor = some c → 0 < c →
      ((∃ key, Claimed declared types elements c key) ∨
        ∃ e before, Unclaimed declared types elements c e before) ∧
      (∀ key, Claimed declared types elements c key → b.inUse = some (.name key)) ∧
      ∀ e before, Unclaimed declared types elements c e before →
        elements[c]? = some e ∧
        ((∃ p, left[before]? = some p ∧ b.named.get? p.name = some (valueOf e) ∧
            b.inUse = some (.name p.name)) ∨
          ∃ k, before = left.length + k ∧ b.positional[k]? = some (valueOf e) ∧
            b.inUse = some (.leftover k)) := by
  intro b left
  refine ⟨⟨fun hnone => ?_, fun h => ?_⟩, fun c hc hpos =>
    ⟨claimed_or_unclaimed_of_indexAt? declared types hc hpos,
      fun key h => bind_inUse_of_claimed hc h,
      fun e before h => ⟨h.getElem?, bind_inUse_of_unclaimed hc h⟩⟩⟩
  · match hc : Element.indexAt? elements cursor with
    | none => exact .inl rfl
    | some 0 => exact .inr rfl
    | some (c + 1) =>
      exfalso
      rcases claimed_or_unclaimed_of_indexAt? declared types hc (Nat.succ_pos c) with
        ⟨key, h⟩ | ⟨e, before, h⟩
      · rw [bind_inUse_of_claimed hc h] at hnone
        cases hnone
      · rcases bind_inUse_of_unclaimed hc h with ⟨p, -, -, h⟩ | ⟨k, -, -, h⟩ <;>
          · rw [h] at hnone
            cases hnone
  · simp only [b, bind, run_outside h, Pass.finish, Option.bind_none]

end CommandShell.Binding
