/-!
Entries with distinct keys, in the order in which the keys first came.
-/

set_option autoImplicit false

namespace CommandShell

abbrev Entries (κ α : Type) := List (κ × α)

namespace Entries

variable {κ α : Type} [DecidableEq κ]

def get? (entries : Entries κ α) (key : κ) : Option α :=
  (entries.find? (·.1 = key)).map (·.2)

def has (entries : Entries κ α) (key : κ) : Bool := entries.any (·.1 = key)

/-- A key that is present keeps its place; a new one goes to the end. -/
def set (entries : Entries κ α) (key : κ) (value : α) : Entries κ α :=
  match entries with
  | [] => [(key, value)]
  | entry :: rest =>
    if entry.1 = key then (entry.1, value) :: rest else entry :: set rest key value

def erase (entries : Entries κ α) (key : κ) : Entries κ α := entries.filter (·.1 ≠ key)

def update (entries later : Entries κ α) : Entries κ α :=
  later.foldl (fun all entry => set all entry.1 entry.2) entries

def ofList (entries : List (κ × α)) : Entries κ α := update [] entries

omit [DecidableEq κ] in
theorem get?_nil [DecidableEq κ] (key : κ) : get? ([] : Entries κ α) key = none := rfl

@[simp] theorem get?_set_self (entries : Entries κ α) (key : κ) (value : α) :
    get? (set entries key value) key = some value := by
  induction entries with
  | nil => simp [set, get?]
  | cons entry rest ih =>
    simp only [set]
    split
    · rename_i h; simp [get?, h]
    · rename_i h
      simp only [get?, List.find?_cons, h, decide_false] at ih ⊢
      exact ih

theorem get?_set_ne (entries : Entries κ α) {key other : κ} (value : α) (h : other ≠ key) :
    get? (set entries key value) other = get? entries other := by
  induction entries with
  | nil => simp [set, get?, h.symm]
  | cons entry rest ih =>
    simp only [set]
    split
    · rename_i hk; simp [get?, hk, h.symm]
    · simp only [get?, List.find?_cons] at ih ⊢
      split
      · rfl
      · exact ih

theorem set_of_notMem {entries : Entries κ α} {key : κ} (value : α)
    (h : key ∉ entries.map (·.1)) : set entries key value = entries ++ [(key, value)] := by
  induction entries with
  | nil => rfl
  | cons entry rest ih =>
    simp only [List.map_cons, List.mem_cons, not_or] at h
    rw [set, if_neg (Ne.symm h.1), ih h.2, List.cons_append]

theorem update_of_nodup (entries later : Entries κ α)
    (h : ((entries ++ later).map (·.1)).Nodup) : update entries later = entries ++ later := by
  induction later generalizing entries with
  | nil => simp [update]
  | cons entry rest ih =>
    have hset : set entries entry.1 entry.2 = entries ++ [entry] := by
      refine set_of_notMem entry.2 fun hm => ?_
      rw [List.map_append, List.map_cons, List.nodup_append] at h
      exact h.2.2 _ hm entry.1 (by simp) rfl
    have hrest := ih (entries ++ [entry]) (by simpa using h)
    rw [update, List.foldl_cons, hset, ← update, hrest, List.append_assoc, List.singleton_append]

theorem ofList_of_nodup {entries : List (κ × α)} (h : (entries.map (·.1)).Nodup) :
    ofList entries = entries :=
  update_of_nodup [] entries h

theorem keys_set_of_mem {entries : Entries κ α} {key : κ} (value : α)
    (h : key ∈ entries.map (·.1)) : (set entries key value).map (·.1) = entries.map (·.1) := by
  induction entries with
  | nil => cases h
  | cons entry rest ih =>
    by_cases hk : entry.1 = key
    · rw [set, if_pos hk, List.map_cons, List.map_cons]
    · rw [List.map_cons, List.mem_cons] at h
      rw [set, if_neg hk, List.map_cons, ih (h.resolve_left (Ne.symm hk)), List.map_cons]

theorem mem_keys_set {entries : Entries κ α} {key other : κ} {value : α} :
    other ∈ (set entries key value).map (·.1) ↔ other = key ∨ other ∈ entries.map (·.1) := by
  by_cases hk : key ∈ entries.map (·.1)
  · rw [keys_set_of_mem value hk]
    exact ⟨.inr, fun h => h.elim (fun he => he ▸ hk) id⟩
  · rw [set_of_notMem value hk]
    simp [or_comm]

theorem nodup_keys_set {entries : Entries κ α} (h : (entries.map (·.1)).Nodup) (key : κ)
    (value : α) : ((set entries key value).map (·.1)).Nodup := by
  by_cases hk : key ∈ entries.map (·.1)
  · rw [keys_set_of_mem value hk]
    exact h
  · rw [set_of_notMem value hk, List.map_append, List.nodup_append]
    refine ⟨h, by simp, fun a ha b hb he => hk ?_⟩
    obtain rfl : a = key := he.trans (List.mem_singleton.mp hb)
    exact ha

theorem eq_or_mem_of_mem_set {entries : Entries κ α} {key : κ} {value : α} {entry : κ × α}
    (h : entry ∈ set entries key value) : entry = (key, value) ∨ entry ∈ entries := by
  induction entries with
  | nil => exact .inl (List.mem_singleton.mp h)
  | cons first rest ih =>
    rw [set] at h
    split at h
    · rename_i hk
      rw [hk] at h
      exact (List.mem_cons.mp h).imp id (List.mem_cons_of_mem _)
    · rcases List.mem_cons.mp h with rfl | h
      · exact .inr (List.mem_cons_self ..)
      · exact (ih h).imp id (List.mem_cons_of_mem _)

theorem get?_update_of_notMem (entries : Entries κ α) {later : Entries κ α} {key : κ}
    (h : key ∉ later.map (·.1)) : get? (update entries later) key = get? entries key := by
  induction later generalizing entries with
  | nil => rfl
  | cons entry rest ih =>
    rw [List.map_cons, List.mem_cons, not_or] at h
    rw [update, List.foldl_cons, ← update, ih _ h.2, get?_set_ne _ _ h.1]

theorem get?_update_of_mem (entries : Entries κ α) {later : Entries κ α} {key : κ} {value : α}
    (hn : (later.map (·.1)).Nodup) (h : (key, value) ∈ later) :
    get? (update entries later) key = some value := by
  induction later generalizing entries with
  | nil => cases h
  | cons entry rest ih =>
    rw [List.map_cons, List.nodup_cons] at hn
    rw [update, List.foldl_cons, ← update]
    rcases List.mem_cons.mp h with rfl | h
    · rw [get?_update_of_notMem _ hn.1, get?_set_self]
    · exact ih _ hn.2 h

theorem find?_of_mem {entries : Entries κ α} (hn : (entries.map (·.1)).Nodup) {entry : κ × α}
    (h : entry ∈ entries) : entries.find? (·.1 = entry.1) = some entry := by
  induction entries with
  | nil => cases h
  | cons first rest ih =>
    rw [List.map_cons, List.nodup_cons] at hn
    rcases List.mem_cons.mp h with rfl | h
    · simp
    · have hne : first.1 ≠ entry.1 := fun he => hn.1 (he ▸ List.mem_map_of_mem h)
      simp [hne, ih hn.2 h]

end Entries

end CommandShell
