import CommandShell.Proofs.Binding.Keywords
import CommandShell.Proofs.Binding.Order

/-!
Reading entries that were set one after another. A key holds what was set last under it, and the
first key that meets a test is the first that met it when it came.
-/

set_option autoImplicit false

namespace CommandShell.Entries

variable {κ α : Type} [DecidableEq κ]

theorem mem_of_get? {entries : Entries κ α} {key : κ} {value : α}
    (h : entries.get? key = some value) : (key, value) ∈ entries := by
  obtain ⟨⟨found, value⟩, hentry, rfl⟩ := Option.map_eq_some_iff.mp h
  obtain rfl : found = key := by simpa using List.find?_some hentry
  exact List.mem_of_find?_eq_some hentry

theorem update_append (entries first later : Entries κ α) :
    update entries (first ++ later) = update (update entries first) later :=
  List.foldl_append ..

theorem update_concat (entries later : Entries κ α) (entry : κ × α) :
    update entries (later ++ [entry]) = set (update entries later) entry.1 entry.2 :=
  List.foldl_append ..

theorem update_eq_ofList {entries : Entries κ α} (hn : (entries.map (·.1)).Nodup)
    (later : Entries κ α) : update entries later = ofList (entries ++ later) := by
  rw [ofList, update_append, ← ofList, ofList_of_nodup hn]

theorem ne_of_get? {entries : Entries κ α} {key other : κ} {value : α}
    (h : get? entries key = some value) (hother : other ∉ entries.map (·.1)) : key ≠ other :=
  fun he => hother (he ▸ List.mem_map_of_mem (mem_of_get? h))

theorem get?_cons (entry : κ × α) (entries : Entries κ α) (key : κ) :
    get? (entry :: entries) key = if entry.1 = key then some entry.2 else get? entries key := by
  by_cases hk : entry.1 = key <;> simp [get?, hk]

theorem get?_append (entries others : Entries κ α) (key : κ) :
    get? (entries ++ others) key = (get? entries key).or (get? others key) := by
  rw [get?, List.find?_append, Option.map_or]
  rfl

theorem get?_map_const {β : Type} {xs : List β} {f : β → κ} {key : κ} (value : α)
    (h : key ∈ xs.map f) : get? (xs.map fun x => (f x, value)) key = some value := by
  induction xs with
  | nil => cases h
  | cons x xs ih =>
    rw [List.map_cons, get?_cons]
    split
    · rfl
    · rename_i hx
      exact ih ((List.mem_cons.mp h).resolve_left (Ne.symm hx))

theorem get?_update (entries later : Entries κ α) (key : κ) :
    get? (update entries later) key = (get? later.reverse key).or (get? entries key) := by
  induction later using List.reverseRecOn with
  | nil => rfl
  | append_singleton later entry ih =>
    rw [update_concat, List.reverse_append, List.reverse_singleton, List.singleton_append,
      get?_cons]
    by_cases hk : entry.1 = key
    · rw [if_pos hk, hk, get?_set_self, Option.some_or]
    · rw [if_neg hk, get?_set_ne _ _ (Ne.symm hk), ih]

theorem get?_ofList (entries : List (κ × α)) (key : κ) :
    get? (ofList entries) key = get? entries.reverse key := by
  rw [ofList, get?_update, get?_nil, Option.or_none]

theorem get?_reverse {entries : Entries κ α} (hn : (entries.map (·.1)).Nodup) (key : κ) :
    get? entries.reverse key = get? entries key :=
  get?_perm (List.reverse_perm entries) (by simpa using List.nodup_reverse.mpr hn) key

theorem mem_or_mem_of_mem_update {entries later : Entries κ α} {entry : κ × α}
    (h : entry ∈ update entries later) : entry ∈ entries ∨ entry ∈ later := by
  induction later using List.reverseRecOn with
  | nil => exact .inl h
  | append_singleton later last ih =>
    rw [update_concat] at h
    rcases eq_or_mem_of_mem_set h with rfl | h
    · exact .inr (List.mem_append_right _ (List.mem_singleton_self _))
    · exact (ih h).imp_right (List.mem_append_left _)

theorem nodup_keys_update {entries : Entries κ α} (hn : (entries.map (·.1)).Nodup)
    (later : Entries κ α) : ((update entries later).map (·.1)).Nodup := by
  rw [update_eq_ofList hn]
  exact nodup_keys_ofList _

theorem find?_keys_set (entries : Entries κ α) (key : κ) (value : α) (q : κ → Bool) :
    ((set entries key value).map (·.1)).find? q = (entries.map (·.1) ++ [key]).find? q := by
  by_cases hk : key ∈ entries.map (·.1)
  · rw [keys_set_of_mem value hk, List.find?_append]
    cases hfound : (entries.map (·.1)).find? q with
    | some first => rfl
    | none => simp [List.find?_eq_none.mp hfound key hk]
  · rw [set_of_notMem value hk, List.map_append]
    rfl

/-- A key that comes again keeps its place, so that the first of a kind stays the first. -/
theorem find?_keys_update (entries later : Entries κ α) (q : κ → Bool) :
    ((update entries later).map (·.1)).find? q =
      (entries.map (·.1) ++ later.map (·.1)).find? q := by
  induction later using List.reverseRecOn with
  | nil => simp [update]
  | append_singleton later entry ih =>
    rw [update_concat, find?_keys_set, List.find?_append, ih, List.map_append, ← List.append_assoc]
    exact List.find?_append.symm

theorem find?_keys_ofList (entries : List (κ × α)) (q : κ → Bool) :
    ((ofList entries).map (·.1)).find? q = (entries.map (·.1)).find? q :=
  find?_keys_update [] entries q

theorem find?_of_key (entries : Entries κ α) (q : κ → Bool) :
    (entries.find? fun entry => q entry.1).map (·.2) =
      ((entries.map (·.1)).find? q).bind (get? entries) := by
  induction entries with
  | nil => rfl
  | cons entry rest ih =>
    rw [List.map_cons, List.find?_cons, List.find?_cons]
    cases hq : q entry.1 with
    | true => simp [get?_cons]
    | false =>
      simp only [ih]
      cases hfound : (rest.map (·.1)).find? q with
      | none => rfl
      | some key =>
        -- the key meets the test, so that it is not the one in front
        have hne : entry.1 ≠ key := fun he => by
          have hkey := List.find?_some hfound
          rw [← he, hq] at hkey
          cases hkey
        simp [get?_cons, hne]

/-! ## Setting again -/

theorem set_set (entries : Entries κ α) (key : κ) (first second : α) :
    set (set entries key first) key second = set entries key second := by
  induction entries with
  | nil => simp [set]
  | cons entry rest ih =>
    by_cases hk : entry.1 = key
    · simp [set, hk]
    · simp [set, hk, ih]

theorem set_comm {entries : Entries κ α} {key other : κ} (value : α) (hne : key ≠ other)
    (h : other ∈ entries.map (·.1)) (otherValue : α) :
    set (set entries key value) other otherValue =
      set (set entries other otherValue) key value := by
  induction entries with
  | nil => cases h
  | cons entry rest ih =>
    by_cases hk : entry.1 = key
    · simp [set, hk, hne]
    · by_cases ho : entry.1 = other
      · simp [set, ho, Ne.symm hne]
      · have hrest := (List.mem_cons.mp h).resolve_left (Ne.symm ho)
        simp [set, hk, ho, ih hrest]

theorem keys_subset_update (entries later : Entries κ α) :
    entries.map (·.1) ⊆ (update entries later).map (·.1) ∧
      later.map (·.1) ⊆ (update entries later).map (·.1) := by
  induction later generalizing entries with
  | nil => exact ⟨List.Subset.refl _, List.nil_subset _⟩
  | cons entry later ih =>
    obtain ⟨hold, hnew⟩ := ih (set entries entry.1 entry.2)
    rw [update, List.foldl_cons, ← update]
    refine ⟨fun key hkey => hold (mem_keys_set.mpr (.inr hkey)), List.cons_subset.mpr ⟨?_, hnew⟩⟩
    exact hold (mem_keys_set.mpr (.inl rfl))

theorem set_update_set {entries later : Entries κ α} (key : κ) (value : α)
    (h : later.map (·.1) ⊆ entries.map (·.1)) :
    set (update (set entries key value) later) key value =
      set (update entries later) key value := by
  induction later generalizing entries with
  | nil => exact set_set entries key value value
  | cons entry later ih =>
    obtain ⟨hentry, hlater⟩ := List.cons_subset.mp h
    simp only [update, List.foldl_cons] at ih ⊢
    by_cases hk : key = entry.1
    · rw [hk, set_set]
    · rw [set_comm value hk hentry]
      exact ih ((keys_set_of_mem entry.2 hentry).symm ▸ hlater)

theorem update_update (entries later : Entries κ α) :
    update (update entries later) later = update entries later := by
  induction later using List.reverseRecOn with
  | nil => rfl
  | append_singleton later entry ih =>
    have hkeys := (keys_subset_update entries later).2
    rw [update_concat entries, update_concat, set_update_set entry.1 entry.2 hkeys, ih]

end CommandShell.Entries
