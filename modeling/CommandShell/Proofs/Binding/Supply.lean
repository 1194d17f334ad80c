import CommandShell.Proofs.Binding.Keywords

/-!
Which element gives a parameter its value, by name or by place, and what becomes of that value: it
is the keyword that the command is called with, unless a member comes under the same key.
-/

set_option autoImplicit false

namespace CommandShell

theorem Entries.get?_ofList_of_mem {κ α : Type} [DecidableEq κ] {entries : List (κ × α)} {key : κ}
    {value : α} (h : (key, value) ∈ entries)
    (hone : ∀ other, (key, other) ∈ entries → other = value) :
    (ofList entries).get? key = some value := by
  have hkey : key ∈ (ofList entries).map (·.1) := mem_keys_ofList.mpr (List.mem_map_of_mem h)
  obtain ⟨⟨_, other⟩, hother, rfl⟩ := List.mem_map.mp hkey
  rw [get?_eq_some_iff (nodup_keys_ofList entries), ← hone other (mem_of_mem_ofList hother)]
  exact hother

theorem eq_of_nodup_filterMap {α β : Type} {f : α → Option β} {xs : List α}
    (h : (xs.filterMap f).Nodup) {x y : α} (hx : x ∈ xs) (hy : y ∈ xs) {b : β}
    (hfx : f x = some b) (hfy : f y = some b) : x = y := by
  induction xs with
  | nil => cases hx
  | cons z xs ih =>
    have htail : (xs.filterMap f).Nodup := h.sublist ((List.sublist_cons_self z xs).filterMap f)
    have hapart (w : α) (hw : w ∈ xs) (hfw : f w = some b) : f z ≠ some b := by
      intro hfz
      rw [List.filterMap_cons_some hfz, List.nodup_cons] at h
      exact h.1 (List.mem_filterMap.mpr ⟨w, hw, hfw⟩)
    rcases List.mem_cons.mp hx with rfl | hx' <;> rcases List.mem_cons.mp hy with rfl | hy'
    · rfl
    · exact absurd hfx (hapart y hy' hfy)
    · exact absurd hfy (hapart x hx' hfx)
    · exact ih htail hx' hy'

namespace Binding

variable {declared : List Parameter} {types : Option TypeRegistry} {elements : List Element}
  {p : Parameter} {e : Element} {a : Argument}

section

variable (declared : List Parameter) (types : Option TypeRegistry) (elements : List Element)

/-- An element gives a parameter its value: it comes right behind the name of the parameter, or it
is a value without a name and the parameter takes values by place. -/
inductive Supplies : Parameter → Element → Prop where
  | named {index : Nat} {name e : Element} {rest : List Element} {pass : Pass} {p : Parameter} :
      Steps ⟨declared, types, none⟩ (.first declared elements) ⟨index, name :: e :: rest, pass⟩ →
      name.isParameter = true → name.inline = none → pass.found name.text = [p] →
      p.isSwitch = false → e.isParameter = false → Supplies p e
  | placed {position before : Nat} {e : Element} {p : Parameter} :
      Unclaimed declared types elements position e before →
      (takers declared types elements)[before]? = some p → Supplies p e

end

theorem Steps.readings_eq {y : Place}
    (h : Steps ⟨declared, types, none⟩ (.first declared elements) y) :
    ∃ rs, readings declared types elements =
      rs ++ Pass.readings ⟨declared, types, none⟩ y.index 0 y.rest y.pass := by
  induction h with
  | refl => exact ⟨[], rfl⟩
  | tail _ hstep ih =>
    obtain ⟨rs, hrs⟩ := ih
    cases hstep with
    | value he =>
      refine ⟨rs, ?_⟩
      rw [hrs, Pass.readings, if_neg (by simp [he])]
      rfl
    | @parameter index consumed e rest pass r noted he hr =>
      refine ⟨rs ++ [r], ?_⟩
      rw [hrs, Pass.readings, if_pos he, hr.read_eq, List.append_assoc]
      exact congrArg _ (congrArg _ (Pass.readings_skip ..))

theorem Steps.mem_readings {index consumed : Nat} {rest : List Element} {pass : Pass}
    {r : Reading} {noted : List Diagnostic}
    (h : Steps ⟨declared, types, none⟩ (.first declared elements) ⟨index, e :: rest, pass⟩)
    (he : e.isParameter = true)
    (hr : Reads ⟨declared, types, none⟩ pass e rest r consumed noted) :
    r ∈ readings declared types elements := by
  obtain ⟨rs, hrs⟩ := Steps.readings_eq h
  rw [hrs, Pass.readings, if_pos he, hr.read_eq]
  simp

theorem Supplies.mem_writes (h : Supplies declared types elements p e) :
    .declared p (valueOf e) ∈ writes declared types elements := by
  cases h with
  | @named index name _ rest pass _ hsteps hname hplain hfound hswitch hvalue =>
    have htakes : valueAfter name (e :: rest).head? p.isSwitch = (valueOf e, 1) := by
      simp only [valueAfter, hplain, hswitch, List.head?_cons, hvalue, Bool.false_eq_true, if_false]
    exact List.mem_append_left _ (Steps.mem_readings hsteps hname (.declared hfound htakes))
  | @placed position before _ _ hunclaimed htaker =>
    have hpair : (p, position, valueOf e) ∈ (gathered declared types elements).placed :=
      List.mem_of_getElem? (List.getElem?_zip_eq_some.mpr ⟨htaker, hunclaimed.run.2⟩)
    exact List.mem_append_right _ (List.mem_map_of_mem (f := fun pair =>
      Reading.declared pair.1 pair.2.2) hpair)

section

variable (hn : (declared.map fun p => Text.lower p.name).Nodup)
  (hnames : ∀ e ∈ elements, e.isParameter = true → e.text ≠ [])

include hn hnames

/-- A parameter keeps what is bound to it, unless a member has its name for a key. -/
theorem named_get?_of_mem_writes {cursor : Int}
    (herrors : (bind elements cursor declared types).errors = [])
    (h : .declared p a ∈ writes declared types elements)
    (hm : p.name ∉ (members declared types elements).map (·.name)) :
    p ∈ declared ∧ (bind elements cursor declared types).named.get? p.name = some a := by
  obtain ⟨-, last, hwrote, hnamed, -⟩ := exists_wrote hn hnames herrors
  have hp : p ∈ declared := hwrote.known p (List.mem_filterMap.mpr ⟨_, h, rfl⟩)
  refine ⟨hp, ?_⟩
  rw [hnamed, hwrote.named]
  refine Entries.get?_ofList_of_mem (List.mem_filterMap.mpr ⟨_, h, rfl⟩) fun other hother => ?_
  obtain ⟨r, hr, hentry⟩ := List.mem_filterMap.mp hother
  cases r with
  | unknown => cases hentry
  | member m =>
    obtain ⟨hname, -⟩ := Prod.mk.inj (Option.some.inj hentry)
    have hin : m ∈ members declared types elements := by
      rw [← members_eq_writes]
      exact List.mem_filterMap.mpr ⟨_, hr, rfl⟩
    exact absurd (List.mem_map.mpr ⟨m, hin, hname⟩) hm
  | declared q value =>
    obtain ⟨hname, rfl⟩ := Prod.mk.inj (Option.some.inj hentry)
    have hq : q ∈ declared := hwrote.known q (List.mem_filterMap.mpr ⟨_, hr, rfl⟩)
    obtain rfl : q = p := List.inj_on_of_nodup_map hn hq hp (congrArg Text.lower hname)
    have hsame := eq_of_nodup_filterMap hwrote.once hr h (b := q) rfl rfl
    exact (Reading.declared.inj hsame).2

end

section Passed

variable {σ : Type} {c : Command σ} {b : Binding} {vars : Variables}
  {given passed : Entries Text Datum} {key : Text}

theorem keywordsFrom_get?_of_not_passed {arguments : List (Text × Argument)}
    (h : keywordsFrom c b vars given arguments = .ok passed)
    (hnone : ∀ entry ∈ arguments, ∀ d, passed? c b vars entry.1 entry.2 ≠ .ok (some (key, d))) :
    passed.get? key = given.get? key := by
  induction arguments generalizing given with
  | nil =>
    obtain rfl := Except.ok.inj h
    rfl
  | cons entry rest ih =>
    obtain ⟨hfirst, hrest⟩ := List.forall_mem_cons.mp hnone
    rw [keywordsFrom_cons] at h
    split at h
    · cases h
    · exact ih h hrest
    · rename_i one hone
      rw [ih h hrest, Entries.get?_set_ne _ _ fun he => hfirst one.2 (by rw [hone, he])]

theorem keywordsFrom_get? {arguments : List (Text × Argument)}
    (h : keywordsFrom c b vars given arguments = .ok passed)
    (hn : (arguments.map (·.1)).Nodup) {name : Text} {d : Datum} (hin : (name, a) ∈ arguments)
    (hpassed : passed? c b vars name a = .ok (some (key, d)))
    (hone : ∀ entry ∈ arguments, ∀ d, passed? c b vars entry.1 entry.2 = .ok (some (key, d)) →
      entry.1 = name) : passed.get? key = some d := by
  induction arguments generalizing given with
  | nil => cases hin
  | cons entry rest ih =>
    obtain ⟨hapart, hn⟩ := List.nodup_cons.mp hn
    obtain ⟨-, hrest⟩ := List.forall_mem_cons.mp hone
    rw [keywordsFrom_cons] at h
    rcases List.mem_cons.mp hin with rfl | hin
    · simp only [hpassed] at h
      have hnone : ∀ other ∈ rest, ∀ d, passed? c b vars other.1 other.2 ≠ .ok (some (key, d)) :=
        fun other hother d' hd =>
          hapart (List.mem_map.mpr ⟨other, hother, hrest other hother d' hd⟩)
      rw [keywordsFrom_get?_of_not_passed h hnone, Entries.get?_set_self]
    · split at h
      · cases h
      · exact ih h hn hin hrest
      · exact ih h hn hin hrest

end Passed

theorem keywords_get? {σ : Type} {c : Command σ} {vars : Variables} {keywords : Entries Text Datum}
    (hn : (c.parameters.map fun p => Text.lower p.name).Nodup)
    (hkeywords : (c.parameters.map (·.keyword)).Nodup)
    (hnames : ∀ e ∈ elements, e.isParameter = true → e.text ≠ [])
    (h : (bind elements (-1) c.parameters types).keywords c vars = .ok keywords)
    (hw : .declared p a ∈ writes c.parameters types elements)
    (hm : ∀ m ∈ members c.parameters types elements, m.name ≠ p.name ∧ m.name ≠ p.keyword) :
    ∃ d, p.type.coerce (a.resolve vars) = .ok d ∧ keywords.get? p.keyword = some d := by
  obtain ⟨hnoted, -, hfrom⟩ := keywords_eq_ok.mp h
  have hall := (keywordsFrom_ok_iff []).mp ⟨_, hfrom⟩
  have hapart := nodup_named_keys hn hnames hnoted
  have hname : p.name ∉ (members c.parameters types elements).map (·.name) := by
    intro hin
    obtain ⟨m, hin, he⟩ := List.mem_map.mp hin
    exact (hm m hin).1 he
  obtain ⟨hp, hget⟩ := named_get?_of_mem_writes hn hnames hnoted hw hname
  have hentry := (Entries.get?_eq_some_iff hapart).mp hget
  obtain ⟨one, hone⟩ := hall _ hentry
  have hpassed : passed? c _ vars p.name a = _ := passed?_parameter hn hp hname
  rw [hone] at hpassed
  split at hpassed
  · rename_i d hd
    refine ⟨d, hd, keywordsFrom_get? hfrom hapart hentry (hone.trans hpassed) ?_⟩
    rintro ⟨other, b⟩ hother d' hd'
    by_cases hmember : other ∈ (members c.parameters types elements).map (·.name)
    · obtain ⟨m, hin, rfl⟩ := List.mem_map.mp hmember
      obtain ⟨v, hv⟩ := passed?_member vars b hmember
      rw [hv] at hd'
      simp only [Except.ok.injEq, Option.some.injEq, Prod.mk.injEq] at hd'
      exact absurd hd'.1 (hm m hin).2
    · have hkey := (mem_named_keys hn hnames hnoted other).mp (List.mem_map_of_mem hother)
      obtain ⟨q, hq, -, rfl⟩ := hkey.resolve_left hmember
      rw [passed?_parameter hn hq hmember] at hd'
      split at hd'
      · simp only [Except.ok.injEq, Option.some.injEq, Prod.mk.injEq] at hd'
        rw [List.inj_on_of_nodup_map hkeywords hq hp hd'.1]
      · cases hd'
  · cases hpassed

end Binding

end CommandShell
