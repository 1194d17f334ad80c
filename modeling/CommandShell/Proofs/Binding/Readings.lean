import CommandShell.Proofs.Binding.Partition
import CommandShell.Proofs.Binding.Replace

/-!
What the parameter elements of an invocation are read as, one after another, and the parameters that
this takes away from the available ones.
-/

set_option autoImplicit false

namespace CommandShell

namespace Entries

variable {κ α : Type} [DecidableEq κ]

theorem has_eq_true {entries : Entries κ α} {key : κ} :
    entries.has key = true ↔ key ∈ entries.map (·.1) := by
  simp [has]

theorem isSome_get? {entries : Entries κ α} {key : κ} :
    (entries.get? key).isSome = true ↔ key ∈ entries.map (·.1) := by
  rw [get?, Option.isSome_map, List.find?_isSome]
  simp

theorem mem_keys_erase {entries : Entries κ α} {key other : κ} :
    other ∈ (entries.erase key).map (·.1) ↔ other ∈ entries.map (·.1) ∧ other ≠ key := by
  simp only [erase, List.mem_map, List.mem_filter, decide_eq_true_eq]
  constructor
  · rintro ⟨entry, ⟨hin, hne⟩, rfl⟩
    exact ⟨⟨entry, hin, rfl⟩, hne⟩
  · rintro ⟨⟨entry, hin, rfl⟩, hne⟩
    exact ⟨entry, ⟨hin, hne⟩, rfl⟩

/-- Erases keys one after another. None of them may be missing when its turn comes. -/
def eraseAll? (entries : Entries κ α) : List κ → Option (Entries κ α)
  | [] => some entries
  | key :: keys => if entries.has key then eraseAll? (entries.erase key) keys else none

theorem eraseAll?_append (entries : Entries κ α) (keys more : List κ) :
    entries.eraseAll? (keys ++ more) = (entries.eraseAll? keys).bind (·.eraseAll? more) := by
  induction keys generalizing entries with
  | nil => rfl
  | cons key keys ih =>
    rw [List.cons_append, eraseAll?, eraseAll?]
    split
    · exact ih _
    · rfl

theorem eraseAll?_of_nodup {entries : Entries κ α} {keys : List κ}
    (hin : ∀ key ∈ keys, key ∈ entries.map (·.1)) (hn : keys.Nodup) :
    entries.eraseAll? keys = some (keys.foldl erase entries) := by
  induction keys generalizing entries with
  | nil => rfl
  | cons key keys ih =>
    obtain ⟨hkey, hkeys⟩ := List.forall_mem_cons.mp hin
    obtain ⟨hapart, hn⟩ := List.nodup_cons.mp hn
    rw [eraseAll?, if_pos (has_eq_true.mpr hkey)]
    exact ih (fun other hother =>
      mem_keys_erase.mpr ⟨hkeys other hother, fun he => hapart (he ▸ hother)⟩) hn

end Entries

namespace Owner

theorem adjacent_isParameter {types : Option TypeRegistry} {parameter adjacent : Element}
    {value : Option Element} {m : AttachedMatch} {noted : List Diagnostic}
    (h : merge types parameter (some adjacent) value = (some m, noted)) :
    adjacent.isParameter = false := by
  cases hp : adjacent.isParameter with
  | false => rfl
  | true => cases types <;> simp [merge, hp] at h

theorem rawValue_consumed {inline raw : Option Text} {value : Option Element}
    (h : rawValue inline value = (raw, true)) : ∃ e, value = some e ∧ e.isParameter = false := by
  revert h
  fun_cases rawValue inline value <;> simp_all

theorem exists_value_of_consumed {types : Option TypeRegistry} {parameter : Element}
    {adjacent value : Option Element} {m : AttachedMatch} {noted : List Diagnostic}
    (h : merge types parameter adjacent value = (some m, noted)) (hm : m.consumed = true) :
    ∃ e, value = some e ∧ e.isParameter = false := by
  revert h
  fun_cases merge types parameter adjacent value with
  | case1 | case2 | case3 | case4 | case6 =>
    intro h
    cases (Prod.mk.inj h).1
  | case5 types a hadjacent ownerName memberName inline hsplit owner howner member found hfind raw
      consumed hraw =>
    intro h
    obtain rfl := Option.some.inj (Prod.mk.inj h).1
    obtain rfl : consumed = true := hm
    exact rawValue_consumed hraw

end Owner

namespace Binding

namespace Reading

def parameter? : Reading → Option Parameter
  | .declared p _ => some p
  | _ => none

def member? : Reading → Option AttachedMatch
  | .member m => some m
  | _ => none

def entry? : Reading → Option (Text × Argument)
  | .declared p value => some (p.name, value)
  | .member m => some (m.name, memberValue m)
  | .unknown .. => none

theorem keys_entries_perm (rs : List Reading) :
    ((rs.filterMap entry?).map (·.1)).Perm
      ((rs.filterMap member?).map (·.name) ++ (rs.filterMap parameter?).map (·.name)) := by
  induction rs with
  | nil => exact .nil
  | cons r rs ih =>
    cases r with
    | declared p value => exact (ih.cons _).trans List.perm_middle.symm
    | member m => exact ih.cons _
    | unknown typed value => exact ih

end Reading

def Pass.read (context : Context) (pass : Pass) (e : Element) (rest : List Element) :
    Reading × Nat × List Diagnostic :=
  match pass.found e.text with
  | [p] =>
    let (value, consumed) := valueAfter e rest.head? p.isSwitch
    (.declared p value, consumed, [])
  | [] =>
    match Owner.merge context.types e rest.head? rest[1]? with
    | (some m, noted) => (.member m, if m.consumed then 2 else 1, noted)
    | (none, noted) =>
      let (value, consumed) := valueAfter e rest.head? false
      (.unknown e.text value, consumed, noted ++ misnamed context pass e.text [] e.start)
  | found =>
    let (value, consumed) := valueAfter e rest.head? false
    (.unknown e.text value, consumed, misnamed context pass e.text found e.start)

def Pass.readings (context : Context) (index : Nat) : Nat → List Element → Pass → List Reading
  | _, [], _ => []
  | skip + 1, _ :: rest, pass => readings context (index + 1) skip rest pass
  | 0, e :: rest, pass =>
    if e.isParameter then
      let (r, consumed, noted) := pass.read context e rest
      r :: readings context (index + 1) consumed rest (r.after noted pass)
    else readings context (index + 1) 0 rest (pass.takeValue context index e)

section

variable (declared : List Parameter) (types : Option TypeRegistry) (elements : List Element)

/-- What the parameter elements of an invocation are read as, in their order. -/
def readings : List Reading :=
  Pass.readings ⟨declared, types, none⟩ 1 0 (elements.drop 1) (Pass.start declared)

/-- The attached members that an invocation merges, in the order of their elements. -/
def members : List AttachedMatch :=
  (readings declared types elements).filterMap Reading.member?

/-- What is bound, one after another: first by the parameter elements, then by place. -/
def writes : List Reading :=
  readings declared types elements ++
    (gathered declared types elements).placed.map fun pair => .declared pair.1 pair.2.2

end

variable {declared : List Parameter} {types : Option TypeRegistry} {context : Context}
  {pass : Pass} {e : Element} {elements rest : List Element} {r : Reading} {consumed : Nat}
  {noted : List Diagnostic}

theorem Reads.read_eq (h : Reads context pass e rest r consumed noted) :
    pass.read context e rest = (r, consumed, noted) := by
  cases h with
  | declared hfound hvalue => simp only [Pass.read, hfound, hvalue]
  | member hfound hmerge => simp only [Pass.read, hfound, hmerge]
  | unknown hfound hmerge hvalue => simp only [Pass.read, hfound, hmerge, hvalue]
  | ambiguous hfound hvalue => simp only [Pass.read, hfound, hvalue]

theorem valueAfter_filter {isSwitch : Bool} {value : Argument}
    (h : valueAfter e rest.head? isSwitch = (value, consumed)) :
    (rest.drop consumed).filter (·.isParameter) = rest.filter (·.isParameter) := by
  revert h
  unfold valueAfter
  split
  · rintro ⟨⟩
    rfl
  · split
    · rename_i next hnext
      obtain ⟨rest, rfl⟩ := List.head?_eq_some_iff.mp hnext
      split
      · rintro ⟨⟩
        rfl
      · rename_i hnext
        rintro ⟨⟩
        simp [hnext]
    · rintro ⟨⟩
      rfl

theorem merge_filter {types : Option TypeRegistry} {m : AttachedMatch}
    (h : Owner.merge types e rest.head? rest[1]? = (some m, noted)) :
    (rest.drop (if m.consumed then 2 else 1)).filter (·.isParameter) =
      rest.filter (·.isParameter) := by
  match rest, h with
  | [], h => cases types <;> cases (Prod.mk.inj h).1
  | adjacent :: more, h =>
    rw [List.head?_cons, List.getElem?_cons_succ, ← List.head?_eq_getElem?] at h
    have hadjacent := Owner.adjacent_isParameter h
    have hvalue : m.consumed = true → ∃ value rest, more = value :: rest ∧
        value.isParameter = false := by
      intro hm
      obtain ⟨value, hvalue, hp⟩ := Owner.exists_value_of_consumed h hm
      obtain ⟨rest, rfl⟩ := List.head?_eq_some_iff.mp hvalue
      exact ⟨value, rest, rfl, hp⟩
    cases hm : m.consumed with
    | false => simp [hadjacent]
    | true =>
      obtain ⟨value, rest, rfl, hp⟩ := hvalue hm
      simp [hadjacent, hp]

theorem Reads.filter_drop (h : Reads context pass e rest r consumed noted) :
    (rest.drop consumed).filter (·.isParameter) = rest.filter (·.isParameter) := by
  cases h with
  | declared _ hvalue => exact valueAfter_filter hvalue
  | member _ hmerge => exact merge_filter hmerge
  | unknown _ _ hvalue => exact valueAfter_filter hvalue
  | ambiguous _ hvalue => exact valueAfter_filter hvalue

namespace Pass

theorem readings_skip (context : Context) (index skip : Nat) (rest : List Element) (pass : Pass) :
    readings context index skip rest pass =
      readings context (index + skip) 0 (rest.drop skip) pass := by
  induction rest generalizing index skip with
  | nil => cases skip <;> rfl
  | cons e rest ih =>
    cases skip with
    | zero => rfl
    | succ skip => rw [readings, ih, List.drop_succ_cons, Nat.add_assoc, Nat.add_comm 1 skip]

theorem length_readings (context : Context) (index : Nat) (rest : List Element) (pass : Pass) :
    (readings context index 0 rest pass).length = (rest.filter (·.isParameter)).length := by
  match rest with
  | [] => rfl
  | e :: rest =>
    cases he : e.isParameter with
    | false =>
      rw [readings, if_neg (by simp [he]), length_readings context (index + 1) rest,
        List.filter_cons_of_neg (by simp [he])]
    | true =>
      obtain ⟨r, consumed, noted, hr⟩ := exists_reads context pass e rest
      rw [readings, if_pos he, hr.read_eq]
      dsimp only
      rw [List.length_cons, readings_skip, length_readings context _ (rest.drop consumed),
        hr.filter_drop, List.filter_cons_of_pos he, List.length_cons]
termination_by rest.length
decreasing_by
  · simp
  · simp only [List.length_drop, List.length_cons]
    omega

end Pass

/-- What holds at the start of a pass, and after each value and each parameter element if it did
before, holds of all that is read and gathered. -/
theorem gathered_induction {motive : List Reading → Pass → Prop}
    (start : motive [] (Pass.start declared))
    (value : ∀ rs pass index e, motive rs pass →
      motive rs { pass with values := pass.values ++ [(index, valueOf e)] })
    (parameter : ∀ rs pass e rest r consumed noted, e ∈ elements → e.isParameter = true →
      Reads ⟨declared, types, none⟩ pass e rest r consumed noted → motive rs pass →
      motive (rs ++ [r]) (r.after noted pass)) :
    motive (readings declared types elements) (gathered declared types elements) := by
  have hrun : ∀ y, Steps ⟨declared, types, none⟩ (.first declared elements) y →
      ∃ rs, readings declared types elements =
          rs ++ Pass.readings ⟨declared, types, none⟩ y.index 0 y.rest y.pass ∧
        motive rs y.pass := by
    intro y hy
    induction hy with
    | refl => exact ⟨[], rfl, start⟩
    | tail hz hstep ih =>
      obtain ⟨rs, hrs, hmotive⟩ := ih
      cases hstep with
      | @value index e rest pass he =>
        refine ⟨rs, ?_, value rs pass index e hmotive⟩
        rw [hrs, Pass.readings, if_neg (by simp [he])]
        rfl
      | @parameter index consumed e rest pass r noted he hr =>
        have hin : e ∈ elements := List.mem_of_getElem? (Steps.getElem? hz).1
        refine ⟨rs ++ [r], ?_, parameter rs pass e rest r consumed noted hin he hr hmotive⟩
        rw [hrs, Pass.readings, if_pos he, hr.read_eq, List.append_assoc]
        exact congrArg _ (congrArg _ (Pass.readings_skip ..))
  obtain ⟨y, hy, hend, -, hlast⟩ := exists_end_first declared types elements
  obtain ⟨rs, hrs, hmotive⟩ := hrun y hy
  rw [hend, Pass.readings, List.append_nil] at hrs
  rwa [hrs, hlast]

def takenKeys (rs : List Reading) : List Text :=
  (rs.filterMap Reading.parameter?).map fun p => Text.lower p.name

theorem takenKeys_append (rs more : List Reading) :
    takenKeys (rs ++ more) = takenKeys rs ++ takenKeys more := by
  rw [takenKeys, List.filterMap_append, List.map_append]
  rfl

theorem gathered_available (declared : List Parameter) (types : Option TypeRegistry)
    (elements : List Element) :
    (Pass.start declared).available.eraseAll? (takenKeys (readings declared types elements)) =
      some (gathered declared types elements).available := by
  have hkeyed := (Place.sound_first declared elements).keyed
  refine (gathered_induction (motive := fun rs pass =>
    (Pass.start declared).available.eraseAll? (takenKeys rs) = some pass.available ∧
      ∀ entry ∈ pass.available, entry.1 = Text.lower entry.2.name) ⟨rfl, hkeyed⟩ ?_ ?_).1
  · exact fun rs pass index e h => h
  · rintro rs pass e rest r consumed noted - - hr ⟨htaken, hkeyed⟩
    rw [takenKeys_append, Entries.eraseAll?_append, htaken, Option.bind_some]
    cases hr with
    | @declared p value _ hfound _ =>
      have hone : p ∈ pass.found e.text := by simp [hfound]
      obtain ⟨entry, hin, rfl⟩ := List.mem_map.mp (Pass.found_mem hone)
      have hthere : pass.available.has (Text.lower entry.2.name) = true :=
        Entries.has_eq_true.mpr (hkeyed entry hin ▸ List.mem_map_of_mem hin)
      exact ⟨if_pos hthere, fun other hother => hkeyed other (List.mem_of_mem_filter hother)⟩
    | member | unknown | ambiguous => exact ⟨rfl, hkeyed⟩

/-- A parameter is taken away only while it is available, and what is left in the end is what was
not taken. -/
theorem bind_available (elements : List Element) (cursor : Int) (declared : List Parameter)
    (types : Option TypeRegistry) :
    ((Pass.start declared).available.eraseAll?
        (takenKeys (writes declared types elements))).map (·.map (·.2)) =
      some (bind elements cursor declared types).available := by
  obtain ⟨a, hrun⟩ := exists_anchor elements cursor declared types
  obtain ⟨y, -, -, hsound, hlast⟩ := exists_end_first declared types elements
  have hkeys : takenKeys (y.pass.placed.map fun pair => .declared pair.1 pair.2.2) =
      y.pass.placed.map fun pair => Text.lower pair.1.name := by
    simp [takenKeys, List.filterMap_map, Function.comp_def, Reading.parameter?]
  have hthere : ∀ key ∈ y.pass.placed.map (fun pair => Text.lower pair.1.name),
      key ∈ y.pass.available.map (·.1) := by
    intro key hkey
    obtain ⟨pair, hpair, rfl⟩ := List.mem_map.mp hkey
    obtain ⟨entry, hin, he⟩ := List.mem_map.mp (Pass.mem_of_mem_placed hpair)
    rw [← he, ← hsound.keyed entry hin]
    exact List.mem_map_of_mem hin
  rw [writes, takenKeys_append, Entries.eraseAll?_append, gathered_available, Option.bind_some,
    hlast, hkeys, Entries.eraseAll?_of_nodup hthere hsound.nodup_placed_keys, Option.map_some,
    List.foldl_map, bind, hrun, hlast]
  rfl

end Binding

end CommandShell
