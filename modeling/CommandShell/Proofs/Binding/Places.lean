import CommandShell.Proofs.Binding.Claims
import CommandShell.Proofs.Entries

/-!
Which values go by place, and where they go. The values that no parameter element took go, in the
order of the line, to the parameters that have a place and were not named, in the order of their
places. What is left of them is left over, and nothing else is bound by place.
-/

set_option autoImplicit false

namespace CommandShell

theorem pairwise_mergeSort_sublist {α : Type} {le : α → α → Bool}
    (trans : ∀ a b c, le a b = true → le b c = true → le a c = true)
    (total : ∀ a b, (le a b || le b a) = true) (xs : List α) :
    (xs.mergeSort le).Pairwise fun a b => le a b = true ∧ (le b a = true → [a, b].Sublist xs) := by
  induction xs with
  | nil => simp
  | cons x xs ih =>
    obtain ⟨before, after, hcons, hrest, hbefore⟩ := List.mergeSort_cons trans total x xs
    have hsorted := List.pairwise_mergeSort trans total (x :: xs)
    rw [hcons, List.pairwise_append, List.pairwise_cons] at hsorted
    obtain ⟨-, ⟨hx, -⟩, hacross⟩ := hsorted
    have hwider : (xs.mergeSort le).Pairwise fun a b =>
        le a b = true ∧ (le b a = true → [a, b].Sublist (x :: xs)) :=
      ih.imp fun h => ⟨h.1, fun hba => (h.2 hba).cons x⟩
    rw [hrest, List.pairwise_append] at hwider
    obtain ⟨hfront, hback, hbetween⟩ := hwider
    rw [hcons, List.pairwise_append, List.pairwise_cons]
    refine ⟨hfront, ⟨fun b hb => ⟨hx b hb, fun _ => ?_⟩, hback⟩, fun a ha b hb => ?_⟩
    · have hin : b ∈ xs :=
        (List.mergeSort_perm xs le).subset (hrest ▸ List.mem_append_right before hb)
      exact (List.singleton_sublist.mpr hin).cons_cons x
    · rcases List.mem_cons.mp hb with rfl | hb'
      · exact ⟨hacross a ha b hb, fun hba => by simpa [hba] using hbefore a ha⟩
      · exact hbetween a ha b hb'

namespace Binding

variable {declared : List Parameter} {types : Option TypeRegistry} {elements : List Element}
  {context : Context} {p : Parameter} {value : Argument}

/-- A parameter comes before another: it has the smaller place, or the same and is declared
first. -/
def TakesBefore (declared : List Parameter) (p q : Parameter) : Prop :=
  ∃ a b, p.position = some a ∧ q.position = some b ∧ (a < b ∨ a = b ∧ [p, q].Sublist declared)

theorem TakesBefore.of_sublist {ps : List Parameter} {q : Parameter} (h : TakesBefore ps p q)
    (hs : ps.Sublist declared) : TakesBefore declared p q := by
  obtain ⟨a, b, hp, hq, horder⟩ := h
  exact ⟨a, b, hp, hq, horder.imp_right fun ⟨he, hpair⟩ => ⟨he, hpair.trans hs⟩⟩

theorem map_snd_positions (ps : List Parameter) :
    (ps.filterMap fun p => p.position.map (·, p)).map (·.2) = ps.filter (·.position.isSome) := by
  induction ps with
  | nil => rfl
  | cons p ps ih => cases hp : p.position <;> simp [hp, ih]

theorem pairwise_byPlace (ps : List Parameter) : (byPlace ps).Pairwise (TakesBefore ps) := by
  have hplace : ∀ entry ∈ ps.filterMap fun p => p.position.map (·, p),
      entry.2.position = some entry.1 := by
    intro entry hentry
    obtain ⟨p, -, hp⟩ := List.mem_filterMap.mp hentry
    obtain ⟨n, hn, rfl⟩ := Option.map_eq_some_iff.mp hp
    exact hn
  have hsorted := @pairwise_mergeSort_sublist (Int × Parameter) (fun a b => decide (a.1 ≤ b.1))
    (by simp only [decide_eq_true_eq]; omega)
    (by simp only [Bool.or_eq_true, decide_eq_true_eq]; omega)
    (ps.filterMap fun p => p.position.map (·, p))
  refine List.pairwise_map.mpr (hsorted.imp_of_mem ?_)
  rintro ⟨a, p⟩ ⟨b, q⟩ hp hq ⟨hle, hsame⟩
  refine ⟨a, b, hplace _ (List.mem_mergeSort.mp hp), hplace _ (List.mem_mergeSort.mp hq), ?_⟩
  rcases Int.lt_or_eq_of_le (of_decide_eq_true hle) with hlt | rfl
  · exact .inl hlt
  · have hpair := (hsame hle).map Prod.snd
    rw [map_snd_positions] at hpair
    exact .inr ⟨rfl, hpair.trans List.filter_sublist⟩

/-! ## Values that are not taken -/

theorem Step.rightUnique (context : Context) : Relator.RightUnique (Step context) := by
  intro x y z hy hz
  cases hy with
  | value he =>
    cases hz with
    | value => rfl
    | parameter he' => simp [he] at he'
  | parameter he hr =>
    cases hz with
    | value he' => simp [he] at he'
    | parameter _ hr' =>
      obtain ⟨rfl, rfl, rfl⟩ := hr.read_eq.symm.trans hr'.read_eq
      rfl

section

variable (declared : List Parameter) (types : Option TypeRegistry) (elements : List Element)

def IsNamed (p : Parameter) : Prop :=
  ∃ value, Reading.declared p value ∈ readings declared types elements

/-- A value behind the command that no parameter element consumed. -/
def IsFree (i : Nat) : Prop :=
  0 < i ∧ (∃ e, elements[i]? = some e ∧ e.isParameter = false) ∧
    ∀ key, ¬ Claimed declared types elements i key

end

/-- There is one pass over the elements, so that its steps take different elements. -/
theorem Unclaimed.not_claimed {i before : Nat} {e : Element} {key : Text}
    (h : Unclaimed declared types elements i e before) :
    ¬ Claimed declared types elements i key := by
  intro hclaimed
  obtain ⟨hsteps, he⟩ := h
  obtain ⟨hsteps', he', hr, hle, hge⟩ := hclaimed
  have hone := Step.rightUnique ⟨declared, types, none⟩
  rcases Relation.ReflTransGen.total_of_right_unique hone hsteps hsteps' with hlater | hlater
  · rcases Relation.ReflTransGen.cases_head hlater with hsame | ⟨next, hnext, hlater⟩
    · simp only [Place.mk.injEq, List.cons.injEq] at hsame
      rw [hsame.2.1.1, he'] at he
      cases he
    · have := hnext.index_lt
      have := Steps.index_le hlater
      simp only at *
      omega
  · rcases Relation.ReflTransGen.cases_head hlater with hsame | ⟨next, hnext, hlater⟩
    · simp only [Place.mk.injEq, List.cons.injEq] at hsame
      rw [← hsame.2.1.1, he'] at he
      cases he
    · obtain rfl := hone hnext (.parameter he' hr)
      have := Steps.index_le hlater
      simp only at *
      omega

theorem isFree_iff {i : Nat} :
    IsFree declared types elements i ↔
      ∃ e before, Unclaimed declared types elements i e before := by
  constructor
  · rintro ⟨hpos, ⟨e, he, -⟩, hfree⟩
    have hlt := (List.getElem?_eq_some_iff.mp he).1
    exact (claimed_or_unclaimed hpos hlt).resolve_left fun ⟨key, hkey⟩ => hfree key hkey
  · rintro ⟨e, before, h⟩
    have hindex : 1 ≤ i := by
      obtain ⟨hsteps, -⟩ := h
      exact Steps.index_le hsteps
    have hvalue : e.isParameter = false := by
      obtain ⟨-, he⟩ := h
      exact he
    exact ⟨hindex, ⟨e, h.getElem?, hvalue⟩, fun key => h.not_claimed⟩

/-- What is put aside in a pass are the values that no parameter element took. -/
theorem Steps.mem_values {y : Place}
    (h : Steps ⟨declared, types, none⟩ (.first declared elements) y) :
    (y.pass.values.map (·.1)).Pairwise (· < ·) ∧ ∀ v ∈ y.pass.values,
      ∃ e before, Unclaimed declared types elements v.1 e before ∧ v.2 = valueOf e := by
  induction h with
  | refl => exact ⟨.nil, fun _ hv => nomatch hv⟩
  | @tail y z hy hstep ih =>
    obtain ⟨hsorted, hvalues⟩ := ih
    have hbelow := (Steps.sound hy (Place.sound_first declared elements)).below
    cases hstep with
    | @value index e rest pass he =>
      refine ⟨?_, List.forall_mem_append.mpr ⟨hvalues, fun v hv => ?_⟩⟩
      · rw [List.map_append, List.pairwise_append]
        refine ⟨hsorted, List.pairwise_singleton _ _, fun i hi j hj => ?_⟩
        obtain ⟨v, hv, rfl⟩ := List.mem_map.mp hi
        obtain rfl := List.mem_singleton.mp hj
        exact hbelow v hv
      · obtain rfl := List.mem_singleton.mp hv
        exact ⟨e, _, .intro hy he, rfl⟩
    | parameter =>
      rw [Reading.after_values]
      exact ⟨hsorted, hvalues⟩

theorem gathered_values (declared : List Parameter) (types : Option TypeRegistry)
    (elements : List Element) :
    let values := (gathered declared types elements).values
    let positions := values.map (·.1)
    positions.Pairwise (· < ·) ∧ (∀ i, i ∈ positions ↔ IsFree declared types elements i) ∧
      (positions.filterMap (elements[·]?)).map valueOf = values.map (·.2) := by
  obtain ⟨y, hy, -, -, hlast⟩ := exists_end_first declared types elements
  obtain ⟨hsorted, hvalues⟩ := Steps.mem_values hy
  rw [← hlast] at hsorted hvalues
  refine ⟨hsorted, fun i => ⟨fun hi => ?_, fun hi => ?_⟩, ?_⟩
  · obtain ⟨v, hv, rfl⟩ := List.mem_map.mp hi
    obtain ⟨e, before, h, -⟩ := hvalues v hv
    exact isFree_iff.mpr ⟨e, before, h⟩
  · obtain ⟨e, before, h⟩ := isFree_iff.mp hi
    exact List.mem_map.mpr ⟨_, List.mem_of_getElem? h.run.2, rfl⟩
  · rw [List.filterMap_map, List.map_filterMap, ← List.filterMap_eq_map]
    refine List.filterMap_congr fun v hv => ?_
    obtain ⟨e, before, h, he⟩ := hvalues v hv
    simp [h.getElem?, he]

/-! ## What is bound by name -/

section

variable (hn : (declared.map fun p => Text.lower p.name).Nodup)
  (hd : ∀ p ∈ declared, '.' ∉ p.name)

include hn hd

theorem gathered_named (types : Option TypeRegistry) (elements : List Element) :
    (gathered declared types elements).Parted declared ∧ ∀ p ∈ declared, ∀ value,
      (gathered declared types elements).named.get? p.name = some value ↔
        Reading.declared p value ∈ readings declared types elements := by
  refine gathered_induction (motive := fun rs pass => pass.Parted declared ∧
    ∀ p ∈ declared, ∀ value, pass.named.get? p.name = some value ↔ Reading.declared p value ∈ rs)
    ?_ ?_ ?_
  · exact ⟨Pass.parted_start hn, by simp [Pass.start, Entries.get?_nil]⟩
  · rintro rs pass index e ⟨hparted, hnamed⟩
    exact ⟨⟨hparted.available, hparted.named, hparted.attached, hparted.once⟩, hnamed⟩
  · rintro rs pass e rest r consumed noted - he hr ⟨hparted, hnamed⟩
    have hstep := @Step.parameter ⟨declared, types, none⟩ 0 _ _ _ _ _ _ he hr
    refine ⟨hstep.parted hn hd hparted, fun p hp value => ?_⟩
    rw [List.mem_append, List.mem_singleton]
    cases hr with
    | @declared q v _ hfound _ =>
      have hq : q ∈ pass.available.map (·.2) := Pass.found_mem (by rw [hfound]; simp)
      change (pass.named.set q.name v).get? p.name = some value ↔ _
      by_cases hsame : p.name = q.name
      · obtain rfl : p = q :=
          List.inj_on_of_nodup_map hn hp (hparted.mem_of_available hq) (congrArg Text.lower hsame)
        have hnew : Reading.declared p value ∉ rs := fun hin =>
          hparted.name_ne ((hnamed p hp value).mpr hin) hq rfl
        simp [hnew, eq_comm]
      · have hne : p ≠ q := fun he => hsame (congrArg _ he)
        rw [Entries.get?_set_ne _ _ hsame, hnamed p hp]
        simp [hne]
    | @member m =>
      have hpoint : p.name ≠ m.name := fun hname =>
        hd p hp (hname ▸ by simp [AttachedMatch.name])
      change (pass.named.set m.name _).get? p.name = some value ↔ _
      rw [Entries.get?_set_ne _ _ hpoint, hnamed p hp]
      simp
    | unknown | ambiguous => simpa [Reading.after] using hnamed p hp value

theorem mem_takers : p ∈ takers declared types elements ↔
    p ∈ declared ∧ p.position.isSome = true ∧ ¬ IsNamed declared types elements p := by
  obtain ⟨hparted, hnamed⟩ := gathered_named hn hd types elements
  rw [takers, (byPlace_perm _).mem_iff, hparted.available, Pass.keyed_map_snd, List.mem_filter,
    List.mem_filter, decide_eq_true_eq, ← Entries.isSome_get?, Option.isSome_iff_exists, IsNamed,
    and_assoc, and_congr_right_iff]
  intro hp
  simp only [hnamed p hp, and_comm]

theorem pairwise_takers : (takers declared types elements).Pairwise (TakesBefore declared) := by
  obtain ⟨hparted, -⟩ := gathered_named hn hd types elements
  refine (pairwise_byPlace _).imp fun h => h.of_sublist ?_
  rw [hparted.available, Pass.keyed_map_snd]
  exact List.filter_sublist

/-- A declared parameter is given the value that it is read with, or the one that goes to its
place. -/
theorem bind_named_iff (cursor : Int) {value : Argument} (hp : p ∈ declared) :
    (bind elements cursor declared types).named.get? p.name = some value ↔
      Reading.declared p value ∈ readings declared types elements ∨
        (p, value) ∈ (takers declared types elements).zip
          ((gathered declared types elements).values.map (·.2)) := by
  obtain ⟨y, -, -, hsound, hlast⟩ := exists_end_first declared types elements
  obtain ⟨hparted, hnamed⟩ := gathered_named hn hd types elements
  have honce : (((gathered declared types elements).placed.map fun pair =>
      (pair.1.name, pair.2.2)).map (·.1)).Nodup := by
    rw [List.map_map, hlast]
    exact hsound.nodup_placed_names
  -- names are apart, so that a name stands for one of the parameters that take values
  have hplaced : ∀ v, Entries.get? ((gathered declared types elements).placed.map fun pair =>
      (pair.1.name, pair.2.2)) p.name = some v ↔
        (p, v) ∈ (takers declared types elements).zip
          ((gathered declared types elements).values.map (·.2)) := by
    intro v
    rw [Entries.get?_eq_some_iff honce, List.zip_map_right]
    constructor
    · intro h
      obtain ⟨⟨q, i, v⟩, hpair, he⟩ := List.mem_map.mp h
      obtain ⟨hname, rfl⟩ := Prod.mk.inj he
      have hq := hparted.mem_of_available (Pass.mem_of_mem_placed hpair)
      obtain rfl : q = p := List.inj_on_of_nodup_map hn hq hp (congrArg Text.lower hname)
      exact List.mem_map.mpr ⟨_, hpair, rfl⟩
    · intro h
      obtain ⟨⟨q, i, v⟩, hpair, he⟩ := List.mem_map.mp h
      obtain ⟨rfl, rfl⟩ := Prod.mk.inj he
      exact List.mem_map.mpr ⟨_, hpair, rfl⟩
  rw [(bind_eq_update elements cursor declared types).1, Entries.get?_update,
    Entries.get?_reverse honce, Option.or_eq_some_iff, hplaced, hnamed p hp, or_comm]
  refine or_congr_left (and_iff_right_of_imp fun hread => ?_)
  rw [← Option.not_isSome_iff_eq_none, Option.isSome_iff_exists]
  rintro ⟨v, hv⟩
  have htaker := (List.of_mem_zip ((hplaced v).mp hv)).1
  exact ((mem_takers hn hd).mp htaker).2.2 ⟨value, hread⟩

end

theorem bind_positional (elements : List Element) (cursor : Int) (declared : List Parameter)
    (types : Option TypeRegistry) :
    let vs := (gathered declared types elements).values.map (·.2)
    (bind elements cursor declared types).positional =
      vs.drop (min vs.length (takers declared types elements).length) := by
  intro vs
  obtain ⟨a, hrun⟩ := exists_anchor elements cursor declared types
  have hlength : (gathered declared types elements).placed.length =
      min vs.length (takers declared types elements).length := by
    rw [Pass.placed, List.length_zip, Nat.min_comm, List.length_map]
    rfl
  rw [← hlength, ← List.map_drop, bind, hrun]
  rfl

/-- Values go by place. Of the values `vs` that no parameter element took, the first `k` go to the
first `k` of the parameters `ds` that have a place and were not named, in the order of their places,
and the others are left over; every other parameter has the value that it was named with, if any. -/
theorem bind_byPlace (elements : List Element) (cursor : Int)
    (hn : (declared.map fun p => Text.lower p.name).Nodup) (hd : ∀ p ∈ declared, '.' ∉ p.name)
    (types : Option TypeRegistry) :
    let b := bind elements cursor declared types
    ∃ (positions : List Nat) (ds : List Parameter),
      (∀ i, i ∈ positions ↔ IsFree declared types elements i) ∧ positions.Pairwise (· < ·) ∧
      (∀ p, p ∈ ds ↔
        p ∈ declared ∧ p.position.isSome = true ∧ ¬ IsNamed declared types elements p) ∧
      ds.Pairwise (TakesBefore declared) ∧
      let vs := (positions.filterMap (elements[·]?)).map valueOf
      let k := min vs.length ds.length
      (∀ i d v, i < k → ds[i]? = some d → vs[i]? = some v → b.named.get? d.name = some v) ∧
      (∀ p ∈ declared, p ∉ ds.take k → ∀ value,
        b.named.get? p.name = some value ↔
          Reading.declared p value ∈ readings declared types elements) ∧
      b.positional = vs.drop k := by
  intro b
  obtain ⟨hsorted, hfree, hvalues⟩ := gathered_values declared types elements
  refine ⟨_, takers declared types elements, hfree, hsorted, fun p => mem_takers hn hd,
    pairwise_takers hn hd, ?_⟩
  rw [hvalues]
  intro vs k
  refine ⟨fun i d v _ hd' hv => ?_, fun p hp hnot value => ?_, ?_⟩
  · have hpair : (d, v) ∈ (takers declared types elements).zip vs :=
      List.mem_of_getElem? (List.getElem?_zip_eq_some.mpr ⟨hd', hv⟩)
    have hdeclared := ((mem_takers hn hd).mp (List.of_mem_zip hpair).1).1
    exact (bind_named_iff hn hd cursor hdeclared).mpr (.inr hpair)
  · rw [bind_named_iff hn hd cursor hp, or_iff_left]
    intro hpair
    obtain ⟨i, hi⟩ := List.mem_iff_getElem?.mp hpair
    obtain ⟨hp', hv⟩ := List.getElem?_zip_eq_some.mp hi
    have hlt := (List.getElem?_eq_some_iff.mp hp').1
    have hlt' := (List.getElem?_eq_some_iff.mp hv).1
    have hwithin := List.getElem?_take_of_lt (l := takers declared types elements)
      (Nat.lt_min.mpr ⟨hlt', hlt⟩)
    exact hnot (List.mem_of_getElem? (hwithin.trans hp'))
  · exact bind_positional elements cursor declared types

def row : List Parameter :=
  [⟨"Left".toList, [], some 1, false, .text, [], []⟩,
    ⟨"Right".toList, [], some 1, false, .text, [], []⟩,
    ⟨"Top".toList, [], some 0, false, .text, [], []⟩,
    ⟨"Flag".toList, [], none, true, .boolean, [], []⟩]

/-- Names may come behind the values: `Left` is named last, so that the second of the four values
goes to `Right` and two are left over. -/
def rowLine : List Element :=
  Element.ofTokens (Token.scan "Set x -Grid.Row 2 y -Flag z w -Left v".toList)

theorem bind_byPlace_row :
    (row.map fun p => Text.lower p.name).Nodup ∧ (∀ p ∈ row, '.' ∉ p.name) ∧
      let b := bind rowLine (-1) row (some Layout.types)
      let pass := gathered row (some Layout.types) rowLine
      pass.named.map (·.1) = ["Grid.Row".toList, "Flag".toList, "Left".toList] ∧
      pass.values.map (·.1) = [1, 5, 7, 8] ∧
      ∃ (positions : List Nat) (ds : List Parameter),
        (∀ i, i ∈ positions ↔ IsFree row (some Layout.types) rowLine i) ∧
        (∀ p, p ∈ ds ↔ p ∈ row ∧ p.position.isSome = true ∧
          ¬ IsNamed row (some Layout.types) rowLine p) ∧
        ds.Pairwise (TakesBefore row) ∧
        let vs := (positions.filterMap (rowLine[·]?)).map valueOf
        b.positional = vs.drop (min vs.length ds.length) := by
  have hn : (row.map fun p => Text.lower p.name).Nodup := by decide +kernel
  have hd : ∀ p ∈ row, '.' ∉ p.name := by decide +kernel
  obtain ⟨positions, ds, hfree, -, hds, hsorted, -, -, hpositional⟩ :=
    bind_byPlace rowLine (-1) hn hd (some Layout.types)
  exact ⟨hn, hd, by decide +kernel, by decide +kernel, positions, ds, hfree, hds, hsorted,
    hpositional⟩

end Binding

end CommandShell
