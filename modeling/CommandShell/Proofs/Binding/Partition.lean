import CommandShell.Layout.Owners
import CommandShell.Proofs.Binding.Cursor
import CommandShell.Proofs.Binding.Named

/-!
Every declared parameter is bound or still available, and never both: it leaves the available ones
just when it is bound, by name or by place, and attached members have keys of their own.
-/

set_option autoImplicit false

namespace CommandShell

theorem Parameter.mem_of_mem_matching {typed : Text} {candidates : List Parameter} {p : Parameter}
    (h : p ∈ matching typed candidates) : p ∈ candidates := by
  unfold matching at h
  split at h
  · exact List.mem_of_mem_filter h
  · exact List.mem_of_mem_filter h

namespace Binding

def Pass.bindTo (pass : Pass) (p : Parameter) (value : Argument) : Pass :=
  { pass with
    available := pass.available.erase (Text.lower p.name)
    named := pass.named.set p.name value }

/-- How the declared parameters are parted all through a pass. Keys with a point are those of
attached members. -/
structure Pass.Parted (declared : List Parameter) (pass : Pass) : Prop where
  available : pass.available =
    keyed (declared.filter fun p => p.name ∉ pass.named.map (·.1))
  named : ∀ key ∈ pass.named.map (·.1),
    (∃ p ∈ declared, p.name = key) ∨ key ∈ pass.attached.map (·.1)
  attached : ∀ key ∈ pass.attached.map (·.1), key ∈ pass.named.map (·.1) ∧ '.' ∈ key
  once : (pass.named.map (·.1)).Nodup

variable {declared : List Parameter} {context : Context} {pass : Pass} {p : Parameter}

namespace Pass

theorem parted_start (hn : (declared.map fun p => Text.lower p.name).Nodup) :
    (start declared).Parted declared := by
  refine ⟨?_, by simp [start], by simp [start], List.nodup_nil⟩
  rw [start_available hn]
  simp [start]

theorem Parted.mem_of_available (h : pass.Parted declared) (hp : p ∈ pass.available.map (·.2)) :
    p ∈ declared := by
  rw [h.available, keyed_map_snd] at hp
  exact List.mem_of_mem_filter hp

theorem Parted.bindTo (hn : (declared.map fun p => Text.lower p.name).Nodup)
    (h : pass.Parted declared) (hp : p ∈ declared) (value : Argument) :
    (pass.bindTo p value).Parted declared := by
  refine ⟨?_, fun key hk => ?_, fun key hk => ?_, Entries.nodup_keys_set h.once _ _⟩
  · simp only [Pass.bindTo, h.available, erase_keyed, List.filter_filter]
    refine congrArg keyed (List.filter_congr fun q hq => ?_)
    -- names that are the same in lower case are those of one parameter
    have hsame : Text.lower q.name = Text.lower p.name ↔ q.name = p.name :=
      ⟨fun he => by rw [List.inj_on_of_nodup_map hn hq hp he], congrArg _⟩
    simp only [Entries.mem_keys_set, ne_eq, hsame, not_or, Bool.decide_and]
  · rcases Entries.mem_keys_set.mp hk with rfl | hk
    · exact .inl ⟨p, hp, rfl⟩
    · exact h.named key hk
  · obtain ⟨hnamed, hpoint⟩ := h.attached key hk
    exact ⟨Entries.mem_keys_set.mpr (.inr hnamed), hpoint⟩

theorem Parted.member (hd : ∀ p ∈ declared, '.' ∉ p.name) (h : pass.Parted declared)
    (m : AttachedMatch) (noted : List Diagnostic) :
    ((Reading.member m).after noted pass).Parted declared := by
  have hpoint : '.' ∈ m.name := by simp [AttachedMatch.name]
  refine ⟨?_, fun key hk => ?_, fun key hk => ?_, Entries.nodup_keys_set h.once _ _⟩
  · rw [Reading.after, h.available]
    refine congrArg keyed (List.filter_congr fun q hq => ?_)
    have hne : q.name ≠ m.name := fun he => hd q hq (he ▸ hpoint)
    simp only [Entries.mem_keys_set, hne, false_or]
  · rcases Entries.mem_keys_set.mp hk with rfl | hk
    · exact .inr (Entries.mem_keys_set.mpr (.inl rfl))
    · exact (h.named key hk).imp id fun hk => Entries.mem_keys_set.mpr (.inr hk)
  · rcases Entries.mem_keys_set.mp hk with rfl | hk
    · exact ⟨Entries.mem_keys_set.mpr (.inl rfl), hpoint⟩
    · obtain ⟨hnamed, hpoint⟩ := h.attached key hk
      exact ⟨Entries.mem_keys_set.mpr (.inr hnamed), hpoint⟩

theorem found_mem {typed : Text} (h : p ∈ pass.found typed) : p ∈ pass.available.map (·.2) := by
  unfold found at h
  split at h
  · cases h
  · exact Parameter.mem_of_mem_matching h

end Pass

theorem Step.parted {x y : Place} (hn : (declared.map fun p => Text.lower p.name).Nodup)
    (hd : ∀ p ∈ declared, '.' ∉ p.name) (h : Step context x y) (hx : x.pass.Parted declared) :
    y.pass.Parted declared := by
  cases h with
  | value => exact ⟨hx.available, hx.named, hx.attached, hx.once⟩
  | parameter _ hr =>
    cases hr with
    | @declared p value _ hfound _ =>
      have hp := hx.mem_of_available (Pass.found_mem (p := p) (by rw [hfound]; simp))
      obtain ⟨havailable, hnamed, hattached, honce⟩ := hx.bindTo hn hp value
      exact ⟨havailable, hnamed, hattached, honce⟩
    | member => exact hx.member hd _ _
    | unknown | ambiguous => exact ⟨hx.available, hx.named, hx.attached, hx.once⟩

theorem Steps.parted {x y : Place} (hn : (declared.map fun p => Text.lower p.name).Nodup)
    (hd : ∀ p ∈ declared, '.' ∉ p.name) (h : Steps context x y) (hx : x.pass.Parted declared) :
    y.pass.Parted declared := by
  induction h with
  | refl => exact hx
  | tail _ hstep ih => exact hstep.parted hn hd ih

namespace Pass

def last (pass : Pass) : Pass :=
  pass.placed.foldl (fun pass pair => pass.bindTo pair.1 pair.2.2) pass

theorem finish_eq_last (pass : Pass) (cursorElement : Option Element) :
    let b := pass.finish cursorElement
    b.named = pass.last.named ∧ b.available = pass.last.available.map (·.2) ∧
      b.attached = pass.last.attached := by
  have h (pairs : List (Parameter × Nat × Argument)) (pass : Pass) :
      let last := pairs.foldl (fun pass pair => pass.bindTo pair.1 pair.2.2) pass
      pairs.foldl (fun named pair => named.set pair.1.name pair.2.2) pass.named = last.named ∧
        pairs.foldl (fun all pair => all.erase (Text.lower pair.1.name)) pass.available =
          last.available ∧ pass.attached = last.attached := by
    induction pairs generalizing pass with
    | nil => exact ⟨rfl, rfl, rfl⟩
    | cons pair pairs ih => exact ih (pass.bindTo pair.1 pair.2.2)
  obtain ⟨hnamed, havailable, hattached⟩ := h pass.placed pass
  exact ⟨hnamed, congrArg (List.map fun entry : Text × Parameter => entry.2) havailable, hattached⟩

theorem mem_of_mem_placed {pair : Parameter × Nat × Argument} (h : pair ∈ pass.placed) :
    pair.1 ∈ pass.available.map (·.2) := by
  have hplace : pair.1 ∈ byPlace (pass.available.map (·.2)) := (List.of_mem_zip h).1
  exact List.mem_of_mem_filter ((byPlace_perm _).mem_iff.mp hplace)

theorem Parted.last (hn : (declared.map fun p => Text.lower p.name).Nodup)
    (h : pass.Parted declared) : pass.last.Parted declared := by
  have hfold (pairs : List (Parameter × Nat × Argument)) (pass : Pass)
      (hp : ∀ pair ∈ pairs, pair.1 ∈ declared) (h : pass.Parted declared) :
      (pairs.foldl (fun pass pair => pass.bindTo pair.1 pair.2.2) pass).Parted declared := by
    induction pairs generalizing pass with
    | nil => exact h
    | cons pair pairs ih =>
      obtain ⟨hpair, hpairs⟩ := List.forall_mem_cons.mp hp
      exact ih _ hpairs (h.bindTo hn hpair _)
  exact hfold _ _ (fun pair hpair => h.mem_of_available (mem_of_mem_placed hpair)) h

end Pass

/-- A declared parameter is either bound under its own name, once, or still available. What is
available is in the order of declaration, and nothing else is bound than attached members. -/
theorem bind_partition (elements : List Element) (cursor : Int)
    (hn : (declared.map fun p => Text.lower p.name).Nodup) (hd : ∀ p ∈ declared, '.' ∉ p.name)
    (types : Option TypeRegistry) :
    let b := bind elements cursor declared types
    (b.named.map (·.1)).Nodup ∧
      (∀ p ∈ declared, p.name ∈ b.named.map (·.1) ↔ p ∉ b.available) ∧
      b.available.Sublist declared ∧
      ∀ key, key ∈ b.named.map (·.1) ↔
        (∃ p ∈ declared, p ∉ b.available ∧ p.name = key) ∨ key ∈ b.attached.map (·.1) := by
  intro b
  obtain ⟨a, hrun⟩ := exists_anchor elements cursor declared types
  obtain ⟨y, hy, -, -, hlast⟩ := exists_end_first declared types elements
  have hparted : Pass.Parted declared { y.pass with anchor := a } := by
    obtain ⟨havailable, hnamed, hattached, honce⟩ := hy.parted hn hd (Pass.parted_start hn)
    exact ⟨havailable, hnamed, hattached, honce⟩
  have hb : b = Pass.finish ((Element.indexAt? elements cursor).bind (elements[·]?))
      { y.pass with anchor := a } := by simp only [b, bind, hrun, hlast]
  obtain ⟨hnamed, havailable, hattached⟩ := Pass.finish_eq_last { y.pass with anchor := a }
    ((Element.indexAt? elements cursor).bind (elements[·]?))
  rw [← hb] at hnamed havailable hattached
  obtain ⟨hleft, hkeys, hpoint, honce⟩ := hparted.last hn
  rw [hleft, Pass.keyed_map_snd, ← hnamed] at havailable
  rw [← hnamed, ← hattached] at hkeys hpoint
  rw [← hnamed] at honce
  have hbound : ∀ p ∈ declared, p.name ∈ b.named.map (·.1) ↔ p ∉ b.available := by
    intro p hp
    simp [havailable, hp]
  refine ⟨honce, hbound, havailable ▸ List.filter_sublist, fun key => ⟨fun hk => ?_, fun hk => ?_⟩⟩
  · rcases hkeys key hk with ⟨p, hp, rfl⟩ | hk
    · exact .inl ⟨p, hp, (hbound p hp).mp hk, rfl⟩
    · exact .inr hk
  · rcases hk with ⟨p, hp, hnot, rfl⟩ | hk
    · exact (hbound p hp).mpr hnot
    · exact (hpoint key hk).1

def cell : List Parameter :=
  [⟨"Path".toList, ["To".toList], none, false, .text, [], []⟩,
    ⟨"Text".toList, [], some 0, false, .text, [], []⟩,
    ⟨"Flag".toList, [], none, true, .boolean, [], []⟩]

theorem bind_partition_cell :
    (cell.map fun p => Text.lower p.name).Nodup ∧ (∀ p ∈ cell, '.' ∉ p.name) ∧
      let b := bind (Element.ofTokens (Token.scan "Set -to a -Grid.Row 2 x -pa c".toList)) (-1) cell
        (some Layout.types)
      b.named.map (·.1) = ["Path".toList, "Grid.Row".toList, "Text".toList] ∧
        b.available.map (·.name) = ["Flag".toList] ∧ b.attached.map (·.1) = ["Grid.Row".toList] ∧
        ∀ p ∈ cell, p.name ∈ b.named.map (·.1) ↔ p ∉ b.available := by
  have hn : (cell.map fun p => Text.lower p.name).Nodup := by decide +kernel
  have hd : ∀ p ∈ cell, '.' ∉ p.name := by decide +kernel
  obtain ⟨-, hbound, -, -⟩ := bind_partition
    (Element.ofTokens (Token.scan "Set -to a -Grid.Row 2 x -pa c".toList)) (-1) hn hd
    (some Layout.types)
  exact ⟨hn, hd, by decide +kernel, by decide +kernel, by decide +kernel, hbound⟩

end Binding

end CommandShell
