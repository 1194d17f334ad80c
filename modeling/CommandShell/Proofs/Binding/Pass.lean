import CommandShell.Binding.Basic
import Mathlib.Data.List.Nodup
import Mathlib.Logic.Relation

/-!
The pass of a binding, step by step. `Reads` says all that can become of a parameter element;
`Step` leads from one element that is not yet consumed to the next. Neither depends on the cursor.
-/

set_option autoImplicit false

namespace CommandShell.Binding

/-- The parameters that a typed name means among those still available. A lone dash means none. -/
def Pass.found (pass : Pass) (typed : Text) : List Parameter :=
  if typed.isEmpty then [] else Parameter.matching typed (pass.available.map (·.2))

/-- What a parameter element turns out to be. -/
inductive Reading where
  | declared (p : Parameter) (value : Argument)
  | member (m : AttachedMatch)
  | unknown (typed : Text) (value : Argument)

namespace Reading

/-- What it is bound under, or refused under. -/
def key : Reading → Text
  | .declared p _ => p.name
  | .member m => m.name
  | .unknown typed _ => typed

/-- How many elements after the first still belong to the name. -/
def nameSpan : Reading → Nat
  | .member _ => 1
  | _ => 0

def memberValue (m : AttachedMatch) : Argument :=
  if m.raw.isSome then .known m.value else .known (.boolean true)

def after (r : Reading) (noted : List Diagnostic) (pass : Pass) : Pass :=
  match r with
  | .declared p value => { pass with
      available := pass.available.erase (Text.lower p.name)
      named := pass.named.set p.name value
      errors := pass.errors ++ noted }
  | .member m => { pass with
      named := pass.named.set m.name (memberValue m)
      attached := pass.attached.set m.name m
      errors := pass.errors ++ noted }
  | .unknown typed value => { pass with
      unknown := pass.unknown.set typed value
      errors := pass.errors ++ noted }

@[simp] theorem after_anchor (r : Reading) (noted : List Diagnostic) (pass : Pass) :
    (r.after noted pass).anchor = pass.anchor := by cases r <;> rfl

@[simp] theorem after_values (r : Reading) (noted : List Diagnostic) (pass : Pass) :
    (r.after noted pass).values = pass.values := by cases r <;> rfl

@[simp] theorem after_errors (r : Reading) (noted : List Diagnostic) (pass : Pass) :
    (r.after noted pass).errors = pass.errors ++ noted := by cases r <;> rfl

end Reading

/-- What a parameter element and the elements behind it are read as, how many of these are consumed,
and what is noted. -/
inductive Reads (context : Context) (pass : Pass) (e : Element) (rest : List Element) :
    Reading → Nat → List Diagnostic → Prop where
  | declared {p : Parameter} {value : Argument} {consumed : Nat} :
      pass.found e.text = [p] → valueAfter e rest.head? p.isSwitch = (value, consumed) →
      Reads context pass e rest (.declared p value) consumed []
  | member {m : AttachedMatch} {noted : List Diagnostic} :
      pass.found e.text = [] → Owner.merge context.types e rest.head? rest[1]? = (some m, noted) →
      Reads context pass e rest (.member m) (if m.consumed then 2 else 1) noted
  | unknown {noted : List Diagnostic} {value : Argument} {consumed : Nat} :
      pass.found e.text = [] → Owner.merge context.types e rest.head? rest[1]? = (none, noted) →
      valueAfter e rest.head? false = (value, consumed) →
      Reads context pass e rest (.unknown e.text value) consumed
        (noted ++ misnamed context pass e.text [] e.start)
  | ambiguous {p q : Parameter} {more : List Parameter} {value : Argument} {consumed : Nat} :
      pass.found e.text = p :: q :: more → valueAfter e rest.head? false = (value, consumed) →
      Reads context pass e rest (.unknown e.text value) consumed
        (misnamed context pass e.text (p :: q :: more) e.start)

variable {context : Context} {pass : Pass} {e : Element} {rest : List Element} {r : Reading}
  {consumed : Nat} {noted : List Diagnostic}

theorem exists_reads (context : Context) (pass : Pass) (e : Element) (rest : List Element) :
    ∃ r consumed noted, Reads context pass e rest r consumed noted := by
  match hfound : pass.found e.text with
  | [p] => exact ⟨_, _, _, .declared hfound rfl⟩
  | p :: q :: more => exact ⟨_, _, _, .ambiguous hfound rfl⟩
  | [] =>
    match hmerge : Owner.merge context.types e rest.head? rest[1]? with
    | (some m, noted) => exact ⟨_, _, _, .member hfound hmerge⟩
    | (none, noted) => exact ⟨_, _, _, .unknown hfound hmerge rfl⟩

theorem Reads.takeParameter (h : Reads context pass e rest r consumed noted) (index : Nat) :
    pass.takeParameter context index e rest =
      ((r.after noted pass).anchorAt context index r.nameSpan consumed r.key, consumed) := by
  cases h with
  | declared hfound hvalue =>
    simp only [Pass.found] at hfound
    simp only [Pass.takeParameter, hfound, hvalue, Reading.after, List.append_nil]
    rfl
  | member hfound hmerge =>
    simp only [Pass.found] at hfound
    simp only [Pass.takeParameter, hfound, hmerge, List.isEmpty_nil, if_true, Reading.after]
    rfl
  | unknown hfound hmerge hvalue =>
    simp only [Pass.found] at hfound
    simp only [Pass.takeParameter, hfound, hmerge, hvalue, List.isEmpty_nil, if_true,
      Reading.after, List.append_assoc]
    rfl
  | ambiguous hfound hvalue =>
    simp only [Pass.found] at hfound
    simp only [Pass.takeParameter, hfound, hvalue, List.isEmpty_cons, Bool.false_eq_true, if_false,
      Reading.after, List.append_nil]
    rfl

/-- Neither the cursor nor where it was found has a part in what is read. -/
theorem Reads.anchored {declared : List Parameter} {types : Option TypeRegistry}
    (h : Reads ⟨declared, types, none⟩ pass e rest r consumed noted) (cursor : Option Nat)
    (a : Option Anchor) :
    Reads ⟨declared, types, cursor⟩ { pass with anchor := a } e rest r consumed noted := by
  cases h with
  | declared hfound hvalue => exact .declared hfound hvalue
  | member hfound hmerge => exact .member hfound hmerge
  | unknown hfound hmerge hvalue => exact .unknown hfound hmerge hvalue
  | ambiguous hfound hvalue => exact .ambiguous hfound hvalue

/-- A pass under way: what it has gathered, and the elements left, the first of them at `index`. -/
structure Place where
  index : Nat
  rest : List Element
  pass : Pass

inductive Step (context : Context) : Place → Place → Prop where
  | value {index : Nat} {e : Element} {rest : List Element} {pass : Pass} :
      e.isParameter = false →
      Step context ⟨index, e :: rest, pass⟩
        ⟨index + 1, rest, { pass with values := pass.values ++ [(index, valueOf e)] }⟩
  | parameter {index consumed : Nat} {e : Element} {rest : List Element} {pass : Pass}
      {r : Reading} {noted : List Diagnostic} :
      e.isParameter = true → Reads context pass e rest r consumed noted →
      Step context ⟨index, e :: rest, pass⟩
        ⟨index + 1 + consumed, rest.drop consumed, r.after noted pass⟩

abbrev Steps (context : Context) : Place → Place → Prop := Relation.ReflTransGen (Step context)

variable {x y : Place}

theorem Step.index_lt (h : Step context x y) : x.index < y.index := by
  cases h with
  | value => exact Nat.lt_succ_self _
  | parameter => exact Nat.lt_of_lt_of_le (Nat.lt_succ_self _) (Nat.le_add_right _ _)

theorem Steps.index_le (h : Steps context x y) : x.index ≤ y.index := by
  induction h with
  | refl => exact Nat.le_refl _
  | tail _ hstep ih => exact Nat.le_trans ih (Nat.le_of_lt hstep.index_lt)

theorem exists_step (context : Context) (index : Nat) (e : Element) (rest : List Element)
    (pass : Pass) : ∃ y, Step context ⟨index, e :: rest, pass⟩ y := by
  cases he : e.isParameter with
  | false => exact ⟨_, .value he⟩
  | true =>
    obtain ⟨r, consumed, noted, hr⟩ := exists_reads context pass e rest
    exact ⟨_, .parameter he hr⟩

theorem Step.rest_length_lt (h : Step context x y) : y.rest.length < x.rest.length := by
  cases h with
  | value => simp
  | parameter => simp only [List.length_drop, List.length_cons]; omega

theorem exists_end (context : Context) (x : Place) : ∃ y, Steps context x y ∧ y.rest = [] := by
  obtain ⟨index, rest, pass⟩ := x
  match rest with
  | [] => exact ⟨_, .refl, rfl⟩
  | e :: rest =>
    obtain ⟨y, hy⟩ := exists_step context index e rest pass
    have hlt := hy.rest_length_lt
    obtain ⟨z, hz, hend⟩ := exists_end context y
    exact ⟨z, .head hy hz, hend⟩
termination_by x.rest.length
decreasing_by exact hlt

theorem Steps.exists_over (h : Steps context x y) {c : Nat} (hx : x.index ≤ c) (hy : c < y.index) :
    ∃ z w, Steps context x z ∧ Step context z w ∧ z.index ≤ c ∧ c < w.index := by
  induction h with
  | refl => omega
  | @tail z w hz hw ih =>
    by_cases hc : c < z.index
    · exact ih hc
    · exact ⟨z, w, hz, hw, Nat.le_of_not_lt hc, hy⟩

namespace Pass

theorem run_skip (context : Context) (index skip : Nat) (rest : List Element) (pass : Pass) :
    run context index skip rest pass = run context (index + skip) 0 (rest.drop skip) pass := by
  induction rest generalizing index skip with
  | nil => cases skip <;> rfl
  | cons e rest ih =>
    cases skip with
    | zero => rfl
    | succ skip =>
      rw [run, ih, List.drop_succ_cons, Nat.add_assoc, Nat.add_comm 1 skip]

theorem run_parameter (he : e.isParameter = true)
    (h : Reads context pass e rest r consumed noted) (index : Nat) :
    run context index 0 (e :: rest) pass = run context (index + 1 + consumed) 0
      (rest.drop consumed)
      ((r.after noted pass).anchorAt context index r.nameSpan consumed r.key) := by
  rw [run, if_pos he, h.takeParameter index]
  exact run_skip ..

theorem run_value (he : e.isParameter = false) (index : Nat) :
    run context index 0 (e :: rest) pass =
      run context (index + 1) 0 rest (pass.takeValue context index e) := by
  rw [run, if_neg (by simp [he])]

end Pass

variable {declared : List Parameter} {types : Option TypeRegistry} {cursor : Option Nat}

/-- A step is a step of the pass for any cursor; an anchor is kept unless the cursor is on what the
step takes. -/
theorem Step.run (h : Step ⟨declared, types, none⟩ x y) (a : Option Anchor)
    (hc : ∀ c, cursor = some c → x.index ≤ c → y.index ≤ c) :
    Pass.run ⟨declared, types, cursor⟩ x.index 0 x.rest { x.pass with anchor := a } =
      Pass.run ⟨declared, types, cursor⟩ y.index 0 y.rest { y.pass with anchor := a } := by
  cases h with
  | @value index e rest pass he =>
    have hout : cursor ≠ some index := fun h => by
      have := hc _ h (Nat.le_refl _)
      simp only at this
      omega
    rw [Pass.run_value he, Pass.takeValue, if_neg hout]
  | @parameter index consumed e rest pass r noted he hr =>
    rw [Pass.run_parameter he (hr.anchored cursor a)]
    have hafter : r.after noted { pass with anchor := a } =
        { r.after noted pass with anchor := a } := by cases r <;> rfl
    rw [hafter]
    congr 1
    unfold Pass.anchorAt
    cases cursor with
    | none => rfl
    | some c =>
      have hout : (decide (index ≤ c) && decide (c ≤ index + consumed)) = false := by
        have := hc c rfl
        simp only at this
        simp only [Bool.and_eq_false_imp, decide_eq_true_eq, decide_eq_false_iff_not]
        omega
      simp only [hout, Bool.false_eq_true, if_false]

theorem Steps.run (cursor : Option Nat) (h : Steps ⟨declared, types, none⟩ x y)
    (a : Option Anchor) (hc : ∀ c, cursor = some c → x.index ≤ c → y.index ≤ c) :
    Pass.run ⟨declared, types, cursor⟩ x.index 0 x.rest { x.pass with anchor := a } =
      Pass.run ⟨declared, types, cursor⟩ y.index 0 y.rest { y.pass with anchor := a } := by
  induction h with
  | refl => rfl
  | @tail z w hz hw ih =>
    have hzw := hw.index_lt
    have hxz := Steps.index_le hz
    rw [ih fun c h h' => Nat.le_trans (Nat.le_of_lt hzw) (hc c h h'),
      hw.run a fun c h h' => hc c h (Nat.le_trans hxz h')]

/-- What holds all through a pass over the elements. -/
structure Place.Sound (elements : List Element) (x : Place) : Prop where
  rest : x.rest = elements.drop x.index
  below : ∀ v ∈ x.pass.values, v.1 < x.index
  apart : (x.pass.values.map (·.1)).Nodup
  keyed : ∀ entry ∈ x.pass.available, entry.1 = Text.lower entry.2.name
  once : (x.pass.available.map (·.1)).Nodup
  unanchored : x.pass.anchor = none

theorem Step.sound {elements : List Element} (h : Step context x y) (hx : x.Sound elements) :
    y.Sound elements := by
  obtain ⟨hrest, hbelow, hapart, hkeyed, honce, hnone⟩ := hx
  cases h with
  | @value index e rest pass he =>
    refine ⟨?_, ?_, ?_, hkeyed, honce, hnone⟩
    · rw [← List.drop_drop, ← hrest, List.drop_one, List.tail_cons]
    · intro v hv
      rcases List.mem_append.mp hv with hv | hv
      · exact Nat.lt_succ_of_lt (hbelow v hv)
      · rw [List.mem_singleton.mp hv]
        exact Nat.lt_succ_self _
    · simp only [List.map_append, List.map_cons, List.map_nil]
      refine List.Nodup.append hapart (List.nodup_singleton _) ?_
      intro i hi hi'
      obtain ⟨v, hv, rfl⟩ := List.mem_map.mp hi
      have := hbelow v hv
      have := List.mem_singleton.mp hi'
      simp only at *
      omega
  | @parameter index consumed e rest pass r noted he hr =>
    refine ⟨?_, ?_, ?_, ?_, ?_, ?_⟩
    · rw [Nat.add_assoc, ← List.drop_drop, ← hrest, Nat.add_comm 1, List.drop_succ_cons]
    · intro v hv
      rw [Reading.after_values] at hv
      have := hbelow v hv
      simp only at *
      omega
    · rw [Reading.after_values]
      exact hapart
    · cases r with
      | declared p value => exact fun entry hm => hkeyed entry (List.mem_of_mem_filter hm)
      | member m => exact hkeyed
      | unknown typed value => exact hkeyed
    · cases r with
      | declared p value => exact (List.filter_sublist.map _).nodup honce
      | member m => exact honce
      | unknown typed value => exact honce
    · rw [Reading.after_anchor]
      exact hnone

theorem Steps.sound {elements : List Element} (h : Steps context x y) (hx : x.Sound elements) :
    y.Sound elements := by
  induction h with
  | refl => exact hx
  | tail _ hstep ih => exact hstep.sound ih

theorem Step.values_prefix (h : Step context x y) : x.pass.values <+: y.pass.values := by
  cases h with
  | value => exact List.prefix_append _ _
  | parameter => simp only [Reading.after_values, List.prefix_rfl]

theorem Steps.values_prefix (h : Steps context x y) : x.pass.values <+: y.pass.values := by
  induction h with
  | refl => exact List.prefix_rfl
  | tail _ hstep ih => exact ih.trans hstep.values_prefix

def Place.first (declared : List Parameter) (elements : List Element) : Place :=
  ⟨1, elements.drop 1, Pass.start declared⟩

theorem Place.sound_first (declared : List Parameter) (elements : List Element) :
    (first declared elements).Sound elements := by
  have hset (all : Entries Text Parameter) (more : List Parameter)
      (hk : ∀ entry ∈ all, entry.1 = Text.lower entry.2.name) (hn : (all.map (·.1)).Nodup) :
      let all := Entries.update all (more.map fun p => (Text.lower p.name, p))
      (∀ entry ∈ all, entry.1 = Text.lower entry.2.name) ∧ (all.map (·.1)).Nodup := by
    induction more generalizing all with
    | nil => exact ⟨hk, hn⟩
    | cons p more ih =>
      refine ih _ (fun entry hm => ?_) (Entries.nodup_keys_set hn _ _)
      rcases Entries.eq_or_mem_of_mem_set hm with rfl | hm
      · rfl
      · exact hk entry hm
  obtain ⟨hk, hn⟩ := hset [] declared (by simp) List.nodup_nil
  exact ⟨rfl, by simp [first, Pass.start], by simp [first, Pass.start], hk, hn, rfl⟩

theorem Steps.getElem? {declared : List Parameter} {elements : List Element} {index : Nat}
    (h : Steps context (.first declared elements) ⟨index, e :: rest, pass⟩) :
    elements[index]? = some e ∧ elements[index + 1]? = rest.head? := by
  have hrest : e :: rest = elements.drop index :=
    (Steps.sound h (Place.sound_first declared elements)).rest
  constructor
  · rw [← List.head?_drop, ← hrest, List.head?_cons]
  · rw [← List.head?_drop, ← List.drop_drop, ← hrest, List.drop_one, List.tail_cons]

end CommandShell.Binding
