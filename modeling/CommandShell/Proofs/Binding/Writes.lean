import CommandShell.Proofs.Binding.Readings
import Mathlib.Data.List.Induction

/-!
What is written over what. The named arguments are what the parameter elements wrote, and then what
went by place. When nothing is noted, only an attached member is ever written over: a declared
parameter that is bound is no longer found.
-/

set_option autoImplicit false

namespace CommandShell

namespace Entries

variable {κ α : Type} [DecidableEq κ]

theorem ofList_concat (entries : List (κ × α)) (entry : κ × α) :
    ofList (entries ++ [entry]) = set (ofList entries) entry.1 entry.2 := by
  rw [ofList, update, List.foldl_append]
  rfl

theorem mem_keys_ofList {entries : List (κ × α)} {key : κ} :
    key ∈ (ofList entries).map (·.1) ↔ key ∈ entries.map (·.1) := by
  induction entries using List.reverseRecOn with
  | nil => rfl
  | append_singleton entries entry ih =>
    rw [ofList_concat, mem_keys_set, ih]
    simp [or_comm]

theorem mem_of_mem_ofList {entries : List (κ × α)} {entry : κ × α} (h : entry ∈ ofList entries) :
    entry ∈ entries := by
  induction entries using List.reverseRecOn with
  | nil => exact h
  | append_singleton entries last ih =>
    rw [ofList_concat] at h
    rcases eq_or_mem_of_mem_set h with rfl | h
    · simp
    · exact List.mem_append_left _ (ih h)

theorem length_set_of_mem {entries : Entries κ α} {key : κ} (value : α)
    (h : key ∈ entries.map (·.1)) : (set entries key value).length = entries.length := by
  simpa using congrArg List.length (keys_set_of_mem value h)

theorem length_set_of_notMem {entries : Entries κ α} {key : κ} (value : α)
    (h : key ∉ entries.map (·.1)) : (set entries key value).length = entries.length + 1 := by
  rw [set_of_notMem value h, List.length_append, List.length_singleton]

theorem length_ofList_le (entries : List (κ × α)) : (ofList entries).length ≤ entries.length := by
  induction entries using List.reverseRecOn with
  | nil => exact Nat.le_refl _
  | append_singleton entries entry ih =>
    rw [ofList_concat, List.length_append, List.length_singleton]
    by_cases hk : entry.1 ∈ (ofList entries).map (·.1)
    · rw [length_set_of_mem _ hk]
      omega
    · rw [length_set_of_notMem _ hk]
      omega

theorem length_ofList_eq_iff {entries : List (κ × α)} :
    (ofList entries).length = entries.length ↔ (entries.map (·.1)).Nodup := by
  refine ⟨fun h => ?_, fun h => by rw [ofList_of_nodup h]⟩
  induction entries using List.reverseRecOn with
  | nil => exact List.nodup_nil
  | append_singleton entries entry ih =>
    rw [ofList_concat, List.length_append, List.length_singleton] at h
    have hle := length_ofList_le entries
    by_cases hk : entry.1 ∈ (ofList entries).map (·.1)
    · rw [length_set_of_mem _ hk] at h
      omega
    · rw [length_set_of_notMem _ hk] at h
      rw [List.map_append, List.map_cons, List.map_nil, List.nodup_append_comm,
        List.singleton_append, List.nodup_cons]
      exact ⟨fun hm => hk (mem_keys_ofList.mpr hm), ih (by omega)⟩

end Entries

namespace Binding

variable {declared : List Parameter} {types : Option TypeRegistry} {context : Context}
  {pass other : Pass} {e : Element} {elements rest : List Element} {r : Reading}
  {rs : List Reading} {consumed : Nat} {p : Parameter}

/-- What a pass has gathered from what was read so far. -/
structure Pass.Wrote (declared : List Parameter) (rs : List Reading) (pass : Pass) : Prop where
  known : ∀ p ∈ rs.filterMap Reading.parameter?, p ∈ declared
  available : pass.available = keyed (untaken declared (rs.filterMap Reading.parameter?))
  once : (rs.filterMap Reading.parameter?).Nodup
  named : pass.named = Entries.ofList (rs.filterMap Reading.entry?)

namespace Pass

theorem wrote_start (hn : (declared.map fun p => Text.lower p.name).Nodup) :
    (start declared).Wrote declared [] := by
  refine ⟨by simp, ?_, List.nodup_nil, rfl⟩
  rw [start_available hn, List.filterMap_nil, untaken_nil]

theorem Wrote.congr (h : pass.Wrote declared rs) (havailable : other.available = pass.available)
    (hnamed : other.named = pass.named) : other.Wrote declared rs :=
  ⟨h.known, havailable.trans h.available, h.once, hnamed.trans h.named⟩

theorem Wrote.bindTo (hn : (declared.map fun p => Text.lower p.name).Nodup)
    (h : pass.Wrote declared rs) (hp : p ∈ declared)
    (hnew : p ∉ rs.filterMap Reading.parameter?) (value : Argument) :
    (pass.bindTo p value).Wrote declared (rs ++ [Reading.declared p value]) := by
  have hparameters : (rs ++ [Reading.declared p value]).filterMap Reading.parameter? =
      rs.filterMap Reading.parameter? ++ [p] := by
    rw [List.filterMap_append]
    rfl
  have hentries : (rs ++ [Reading.declared p value]).filterMap Reading.entry? =
      rs.filterMap Reading.entry? ++ [(p.name, value)] := by
    rw [List.filterMap_append]
    rfl
  refine ⟨?_, ?_, ?_, ?_⟩ <;> simp only [hparameters, hentries, Pass.bindTo]
  · intro q hq
    rcases List.mem_append.mp hq with hq | hq
    · exact h.known q hq
    · exact List.mem_singleton.mp hq ▸ hp
  · rw [h.available, erase_untaken hn hp]
  · rw [List.nodup_append_comm, List.singleton_append, List.nodup_cons]
    exact ⟨hnew, h.once⟩
  · rw [h.named, Entries.ofList_concat]

theorem Wrote.member (h : pass.Wrote declared rs) (m : AttachedMatch) (noted : List Diagnostic) :
    ((Reading.member m).after noted pass).Wrote declared (rs ++ [Reading.member m]) := by
  have hparameters : (rs ++ [Reading.member m]).filterMap Reading.parameter? =
      rs.filterMap Reading.parameter? := by
    rw [List.filterMap_append]
    exact List.append_nil _
  have hentries : (rs ++ [Reading.member m]).filterMap Reading.entry? =
      rs.filterMap Reading.entry? ++ [(m.name, Reading.memberValue m)] := by
    rw [List.filterMap_append]
    rfl
  refine ⟨?_, ?_, ?_, ?_⟩ <;> simp only [hparameters, hentries, Reading.after]
  · exact h.known
  · exact h.available
  · exact h.once
  · rw [h.named, Entries.ofList_concat]

theorem Wrote.read (hn : (declared.map fun p => Text.lower p.name).Nodup)
    (h : pass.Wrote declared rs) (he : e.text ≠ [])
    (hr : Reads context pass e rest r consumed []) :
    (r.after [] pass).Wrote declared (rs ++ [r]) ∧ ([r].filterMap Reading.entry?).length = 1 := by
  rcases hr.declared_or_member he with ⟨p, value, rfl, hfound, -⟩ | ⟨m, rfl⟩
  · have hone : p ∈ pass.found e.text := by simp [hfound]
    have hleft := found_mem hone
    rw [h.available, keyed_map_snd] at hleft
    obtain ⟨hp, hnew⟩ := mem_untaken.mp hleft
    exact ⟨(h.bindTo hn hp hnew value).congr rfl rfl, rfl⟩
  · exact ⟨h.member m [], rfl⟩

end Pass

theorem gathered_wrote (hn : (declared.map fun p => Text.lower p.name).Nodup)
    (hnames : ∀ e ∈ elements, e.isParameter = true → e.text ≠ [])
    (herrors : (gathered declared types elements).errors = []) :
    let rs := readings declared types elements
    (gathered declared types elements).Wrote declared rs ∧
      (rs.filterMap Reading.entry?).length = rs.length := by
  refine gathered_induction (motive := fun rs pass => pass.errors = [] →
    pass.Wrote declared rs ∧ (rs.filterMap Reading.entry?).length = rs.length) ?_ ?_ ?_ herrors
  · exact fun _ => ⟨Pass.wrote_start hn, rfl⟩
  · intro rs pass index e ih herrors
    obtain ⟨hwrote, hlength⟩ := ih herrors
    exact ⟨hwrote.congr rfl rfl, hlength⟩
  · intro rs pass e rest r consumed noted hin he hr ih herrors
    rw [Reading.after_errors] at herrors
    obtain ⟨hbefore, rfl⟩ := List.append_eq_nil_iff.mp herrors
    obtain ⟨hwrote, hlength⟩ := ih hbefore
    obtain ⟨hwrote', hone⟩ := hwrote.read hn (hnames e hin he) hr
    refine ⟨hwrote', ?_⟩
    rw [List.filterMap_append, List.length_append, hlength, hone, List.length_append,
      List.length_singleton]

theorem Pass.Wrote.foldl_bindTo (hn : (declared.map fun p => Text.lower p.name).Nodup)
    (pairs : List (Parameter × Nat × Argument))
    (hp : ∀ pair ∈ pairs, pair.1 ∈ declared ∧ pair.1 ∉ rs.filterMap Reading.parameter?)
    (honce : (pairs.map (·.1)).Nodup) (h : pass.Wrote declared rs) :
    (pairs.foldl (fun pass pair => pass.bindTo pair.1 pair.2.2) pass).Wrote declared
      (rs ++ pairs.map fun pair => Reading.declared pair.1 pair.2.2) := by
  induction pairs generalizing pass rs with
  | nil => simpa using h
  | cons pair pairs ih =>
    obtain ⟨⟨hin, hnew⟩, hpairs⟩ := List.forall_mem_cons.mp hp
    obtain ⟨hapart, honce⟩ := List.nodup_cons.mp honce
    have hrest : ∀ other ∈ pairs, other.1 ∈ declared ∧
        other.1 ∉ (rs ++ [Reading.declared pair.1 pair.2.2]).filterMap Reading.parameter? := by
      refine fun other hother => ⟨(hpairs other hother).1, fun hm => ?_⟩
      rw [List.filterMap_append, List.mem_append] at hm
      rcases hm with hm | hm
      · exact (hpairs other hother).2 hm
      · obtain hsame : other.1 = pair.1 := List.mem_singleton.mp hm
        exact hapart (List.mem_map.mpr ⟨other, hother, hsame⟩)
    simpa using ih hrest honce (h.bindTo hn hin hnew pair.2.2)

theorem Pass.Wrote.last (hn : (declared.map fun p => Text.lower p.name).Nodup)
    (h : pass.Wrote declared rs) (honce : (pass.placed.map (·.1.name)).Nodup) :
    pass.last.Wrote declared
      (rs ++ pass.placed.map fun pair => Reading.declared pair.1 pair.2.2) := by
  have hparameters : (pass.placed.map (·.1)).Nodup := by
    refine List.Nodup.of_map (·.name) ?_
    rwa [List.map_map]
  refine h.foldl_bindTo hn _ (fun pair hpair => ?_) hparameters
  have hleft := mem_of_mem_placed hpair
  rw [h.available, keyed_map_snd] at hleft
  exact mem_untaken.mp hleft

/-- The keys are apart just when those of the attached members are, and none of these is that of a
bound parameter. -/
theorem Pass.Wrote.nodup_keys_iff (hn : (declared.map fun p => Text.lower p.name).Nodup)
    (h : pass.Wrote declared rs) :
    ((rs.filterMap Reading.entry?).map (·.1)).Nodup ↔
      ((rs.filterMap Reading.member?).map (·.name)).Nodup ∧
        ∀ m ∈ rs.filterMap Reading.member?, ∀ p ∈ declared, p.name = m.name →
          p ∈ pass.available.map (·.2) := by
  have hnames : ((rs.filterMap Reading.parameter?).map (·.name)).Nodup := by
    refine h.once.map_on fun p hp q hq he => ?_
    exact List.inj_on_of_nodup_map hn (h.known p hp) (h.known q hq) (congrArg Text.lower he)
  rw [(Reading.keys_entries_perm rs).nodup_iff, List.nodup_append, h.available, keyed_map_snd]
  refine and_congr_right fun _ => ⟨fun hapart m hm p hp he => ?_, fun hleft => ?_⟩
  · refine mem_untaken.mpr ⟨hp, fun hbound => ?_⟩
    exact hapart.2 _ (List.mem_map_of_mem hm) _ (List.mem_map_of_mem hbound) he.symm
  · refine ⟨hnames, fun key hkey key' hkey' he => ?_⟩
    obtain ⟨m, hm, rfl⟩ := List.mem_map.mp hkey
    obtain ⟨p, hp, rfl⟩ := List.mem_map.mp hkey'
    exact (mem_untaken.mp (hleft m hm p (h.known p hp) he.symm)).2 hp

theorem members_eq_writes (declared : List Parameter) (types : Option TypeRegistry)
    (elements : List Element) :
    (writes declared types elements).filterMap Reading.member? =
      members declared types elements := by
  rw [writes, List.filterMap_append, List.filterMap_map]
  simp [members, Function.comp_def, Reading.member?]

theorem length_writes (declared : List Parameter) (types : Option TypeRegistry)
    (elements : List Element) :
    (writes declared types elements).length =
      ((elements.drop 1).filter (·.isParameter)).length +
        (gathered declared types elements).placed.length := by
  rw [writes, List.length_append, readings, Pass.length_readings, List.length_map]

theorem exists_wrote (hn : (declared.map fun p => Text.lower p.name).Nodup)
    (hnames : ∀ e ∈ elements, e.isParameter = true → e.text ≠ []) {cursor : Int}
    (herrors : (bind elements cursor declared types).errors = []) :
    let ws := writes declared types elements
    (ws.filterMap Reading.entry?).length = ws.length ∧
      ∃ last : Pass, last.Wrote declared ws ∧
        (bind elements cursor declared types).named = last.named ∧
        (bind elements cursor declared types).available = last.available.map (·.2) := by
  intro ws
  obtain ⟨a, hrun⟩ := exists_anchor elements cursor declared types
  obtain ⟨y, -, -, hsound, hlast⟩ := exists_end_first declared types elements
  have honce := hsound.nodup_placed_names
  rw [← hlast] at honce
  rw [bind, hrun] at herrors ⊢
  obtain ⟨hwrote, hlength⟩ := gathered_wrote hn hnames herrors
  have hanchored : Pass.Wrote declared (readings declared types elements)
      { gathered declared types elements with anchor := a } := hwrote.congr rfl rfl
  obtain ⟨hnamed, havailable, -⟩ :=
    Pass.finish_eq_last { gathered declared types elements with anchor := a }
      ((Element.indexAt? elements cursor).bind (elements[·]?))
  refine ⟨?_, Pass.last { gathered declared types elements with anchor := a },
    hanchored.last hn honce, hnamed, havailable⟩
  simp only [ws, writes, List.filterMap_append, List.length_append, hlength, List.filterMap_map]
  simp [Function.comp_def, Reading.entry?]

/-- When nothing is noted, each parameter element and each value that goes by place has a named
argument of its own, unless an attached member has the key of another one or of a parameter that is
bound. -/
theorem bind_named_length (elements : List Element) (cursor : Int)
    (hn : (declared.map fun p => Text.lower p.name).Nodup)
    (hnames : ∀ e ∈ elements, e.isParameter = true → e.text ≠ []) (types : Option TypeRegistry)
    (herrors : (bind elements cursor declared types).errors = []) :
    let b := bind elements cursor declared types
    let given := ((elements.drop 1).filter (·.isParameter)).length +
      (gathered declared types elements).placed.length
    let members := members declared types elements
    b.named.length ≤ given ∧
      (b.named.length = given ↔ (members.map (·.name)).Nodup ∧
        ∀ m ∈ members, ∀ p ∈ declared, p.name = m.name → p ∈ b.available) := by
  intro b given members
  obtain ⟨hlength, last, hwrote, hnamed, havailable⟩ := exists_wrote hn hnames herrors
  have hgiven : given = ((writes declared types elements).filterMap Reading.entry?).length := by
    rw [hlength, length_writes]
  have hkeys := hwrote.nodup_keys_iff hn
  rw [← havailable, members_eq_writes] at hkeys
  rw [← hkeys, hgiven, hnamed, hwrote.named]
  exact ⟨Entries.length_ofList_le _, Entries.length_ofList_eq_iff⟩

theorem bind_named_length_cell :
    let elements := Element.ofTokens (Token.scan "Set -to a -Grid.Row 2 x -Grid.Column 3".toList)
    let b := bind elements (-1) cell (some Layout.types)
    (cell.map fun p => Text.lower p.name).Nodup ∧
      (∀ e ∈ elements, e.isParameter = true → e.text ≠ []) ∧ b.errors = [] ∧
      (members cell (some Layout.types) elements).map (·.name) =
        ["Grid.Row".toList, "Grid.Column".toList] ∧ b.named.length = 3 + 1 := by
  intro elements b
  have hn : (cell.map fun p => Text.lower p.name).Nodup := by decide +kernel
  have hnames : ∀ e ∈ elements, e.isParameter = true → e.text ≠ [] := by decide +kernel
  have herrors : b.errors = [] := by decide +kernel
  have hmembers : (members cell (some Layout.types) elements).map (·.name) =
      ["Grid.Row".toList, "Grid.Column".toList] := by decide +kernel
  have hgiven : ((elements.drop 1).filter (·.isParameter)).length +
      (gathered cell (some Layout.types) elements).placed.length = 3 + 1 := by decide +kernel
  obtain ⟨-, hcount⟩ := bind_named_length elements (-1) hn hnames (some Layout.types) herrors
  refine ⟨hn, hnames, herrors, hmembers, hgiven ▸ hcount.mpr ⟨?_, ?_⟩⟩
  · rw [hmembers]
    decide +kernel
  · intro m hm p hp he
    have hkey : p.name ∈ ["Grid.Row".toList, "Grid.Column".toList] := by
      rw [he, ← hmembers]
      exact List.mem_map_of_mem hm
    exact absurd hkey ((by decide +kernel : ∀ p ∈ cell,
      p.name ∉ ["Grid.Row".toList, "Grid.Column".toList]) p hp)

/-- A member that is attached twice is bound once, and nothing is noted. -/
theorem bind_member_twice :
    let types := (TypeRegistry.empty.register
      (OwnerType.make "Grid".toList [] [("Row".toList, .integer)] []) []).1
    let elements := Element.ofTokens (Token.scan "Cmd -Grid.Row 1 -Grid.Row 2".toList)
    let b := bind elements (-1) [] (some types)
    (∀ e ∈ elements, e.isParameter = true → e.text ≠ []) ∧ b.errors = [] ∧
      b.named.map (·.1) = ["Grid.Row".toList] ∧
      ((elements.drop 1).filter (·.isParameter)).length = 2 ∧
      b.named.length ≠ ((elements.drop 1).filter (·.isParameter)).length +
        (gathered [] (some types) elements).placed.length := by
  decide +kernel

end Binding

end CommandShell
