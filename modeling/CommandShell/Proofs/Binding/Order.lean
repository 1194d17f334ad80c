import CommandShell.Proofs.Binding.Partition

/-!
The order of arguments. Names that are typed in full mean the same parameters wherever they stand,
so what an invocation gives by name can be moved about, as long as the values without a name keep
their order.
-/

set_option autoImplicit false

namespace CommandShell

namespace Entries

variable {κ α : Type} [DecidableEq κ]

theorem get?_of_notMem {entries : Entries κ α} {key : κ} (h : key ∉ entries.map (·.1)) :
    get? entries key = none := by
  have hnone : entries.find? (·.1 = key) = none := by
    refine List.find?_eq_none.mpr fun entry he hk => h ?_
    exact of_decide_eq_true hk ▸ List.mem_map_of_mem he
  rw [get?, hnone, Option.map_none]

theorem get?_perm {entries others : Entries κ α} (h : entries.Perm others)
    (hn : (entries.map (·.1)).Nodup) (key : κ) : get? entries key = get? others key := by
  have hn' : (others.map (·.1)).Nodup := (h.map _).nodup_iff.mp hn
  by_cases hk : key ∈ entries.map (·.1)
  · obtain ⟨entry, he, rfl⟩ := List.mem_map.mp hk
    rw [get?, get?, find?_of_mem hn he, find?_of_mem hn' (h.mem_iff.mp he)]
  · rw [get?_of_notMem hk, get?_of_notMem fun hm => hk ((h.map _).mem_iff.mpr hm)]

theorem get?_set_congr {entries others : Entries κ α}
    (h : ∀ key, get? entries key = get? others key) (key other : κ) (value : α) :
    get? (set entries key value) other = get? (set others key value) other := by
  by_cases hk : other = key
  · rw [hk, get?_set_self, get?_set_self]
  · rw [get?_set_ne _ _ hk, get?_set_ne _ _ hk, h]

theorem get?_update_congr {entries others : Entries κ α}
    (h : ∀ key, get? entries key = get? others key) (later : Entries κ α) (key : κ) :
    get? (update entries later) key = get? (update others later) key := by
  induction later generalizing entries others with
  | nil => exact h key
  | cons entry later ih => exact ih fun other => get?_set_congr h entry.1 other entry.2

end Entries

namespace Binding

/-- An element that is a name of a parameter in full. A dash by itself is no name. -/
structure Names (e : Element) (p : Parameter) : Prop where
  isParameter : e.isParameter = true
  isNamed : p.isNamed e.text = true
  text_ne_nil : e.text ≠ []

/-- What a part of an invocation gives: a value by name, or a value that goes by its place. -/
inductive Given where
  | named (p : Parameter) (value : Argument)
  | placed (value : Argument)

namespace Given

def parameter? : Given → Option Parameter
  | .named p _ => some p
  | .placed _ => none

def entry? : Given → Option (Text × Argument)
  | .named p value => some (p.name, value)
  | .placed _ => none

def placed? : Given → Option Argument
  | .named .. => none
  | .placed value => some value

end Given

/-- Elements that give values one after another: a switch, a name with an inline value, a name and
the value behind it, or a value by itself. -/
inductive Blocks (declared : List Parameter) : List Element → List Given → Prop
  | nil : Blocks declared [] []
  | switch {e : Element} {p : Parameter} {es : List Element} {gs : List Given} :
      p ∈ declared → Names e p → p.isSwitch = true → e.inline = none → Blocks declared es gs →
      Blocks declared (e :: es) (.named p (.known (.boolean true)) :: gs)
  | inline {e : Element} {p : Parameter} {s : Text} {es : List Element} {gs : List Given} :
      p ∈ declared → Names e p → e.inline = some s → Blocks declared es gs →
      Blocks declared (e :: es) (.named p (inlineValue s) :: gs)
  | valued {e v : Element} {p : Parameter} {es : List Element} {gs : List Given} :
      p ∈ declared → Names e p → p.isSwitch = false → e.inline = none → v.isParameter = false →
      Blocks declared es gs → Blocks declared (e :: v :: es) (.named p (valueOf v) :: gs)
  | value {v : Element} {es : List Element} {gs : List Given} :
      v.isParameter = false → Blocks declared es gs →
      Blocks declared (v :: es) (.placed (valueOf v) :: gs)

/-- What a pass has gathered from parts that gave these. -/
structure Pass.Gathers (declared : List Parameter) (gs : List Given) (pass : Pass) : Prop where
  known : ∀ p ∈ gs.filterMap Given.parameter?, p ∈ declared
  available : pass.available = keyed (untaken declared (gs.filterMap Given.parameter?))
  named : pass.named = gs.filterMap Given.entry?
  values : pass.values.map (·.2) = gs.filterMap Given.placed?
  errors : pass.errors = []

variable {declared : List Parameter} {types : Option TypeRegistry} {gs gs' given : List Given}
  {pass : Pass} {p : Parameter} {e : Element} {es es' rest : List Element} {value : Argument}

namespace Given

theorem keys_entries (gs : List Given) :
    (gs.filterMap entry?).map (·.1) = (gs.filterMap parameter?).map (·.name) := by
  induction gs with
  | nil => rfl
  | cons g gs ih => cases g <;> simp [List.filterMap_cons, entry?, parameter?, ih]

theorem nodup_keys (hd : Parameter.Apart declared)
    (hin : ∀ p ∈ gs.filterMap parameter?, p ∈ declared)
    (honce : (gs.filterMap parameter?).Nodup) : ((gs.filterMap entry?).map (·.1)).Nodup := by
  rw [keys_entries]
  refine honce.map_on fun p hp q hq he => ?_
  exact hd.eq_of_lower_name (hin p hp) (hin q hq) (congrArg Text.lower he)

theorem notMem_of_once (h : ((gs ++ .named p value :: given).filterMap parameter?).Nodup) :
    p ∉ gs.filterMap parameter? := by
  intro hm
  rw [List.filterMap_append, List.nodup_append] at h
  exact h.2.2 p hm p (by simp [parameter?]) rfl

end Given

namespace Pass

theorem gathers_start (hd : Parameter.Apart declared) : (start declared).Gathers declared [] := by
  refine ⟨by simp, ?_, rfl, rfl, rfl⟩
  rw [start_available hd.nodup_lower_names, List.filterMap_nil, untaken_nil]

theorem Gathers.found_eq (hd : Parameter.Apart declared) (h : pass.Gathers declared gs)
    (he : Names e p) (hp : p ∈ declared) (hnew : p ∉ gs.filterMap Given.parameter?) :
    pass.found e.text = [p] := by
  have hleft : p ∈ untaken declared (gs.filterMap Given.parameter?) := mem_untaken.mpr ⟨hp, hnew⟩
  rw [found, if_neg (by simpa using he.text_ne_nil), h.available, keyed_map_snd]
  exact (hd.sublist (untaken_sublist ..)).matching_eq hleft he.isNamed

theorem Gathers.after_named (hd : Parameter.Apart declared) (h : pass.Gathers declared gs)
    (hp : p ∈ declared) (hnew : p ∉ gs.filterMap Given.parameter?) (value : Argument) :
    ((Reading.declared p value).after [] pass).Gathers declared (gs ++ [.named p value]) := by
  have hsame : ∀ q ∈ declared, Text.lower q.name = Text.lower p.name ↔ q = p := fun q hq =>
    ⟨hd.eq_of_lower_name hq hp, fun he => he ▸ rfl⟩
  refine ⟨?_, ?_, ?_, ?_, ?_⟩
  · intro q hq
    rw [List.filterMap_append, List.mem_append] at hq
    rcases hq with hq | hq
    · exact h.known q hq
    · obtain rfl : q = p := by simpa [Given.parameter?] using hq
      exact hp
  · simp only [Reading.after, h.available, erase_untaken hd.nodup_lower_names hp,
      List.filterMap_append]
    rfl
  · have hkey : p.name ∉ (gs.filterMap Given.entry?).map (·.1) := by
      rw [Given.keys_entries]
      intro hm
      obtain ⟨q, hq, he⟩ := List.mem_map.mp hm
      exact hnew ((hsame q (h.known q hq)).mp (congrArg Text.lower he) ▸ hq)
    simp only [Reading.after, h.named, Entries.set_of_notMem value hkey]
    simp [Given.entry?]
  · simp [h.values, Given.placed?]
  · simp [h.errors]

theorem Gathers.after_placed (h : pass.Gathers declared gs) (index : Nat) (value : Argument) :
    Gathers declared (gs ++ [.placed value])
      { pass with values := pass.values ++ [(index, value)] } := by
  refine ⟨?_, ?_, ?_, ?_, h.errors⟩
  · simpa [Given.parameter?] using h.known
  · rw [h.available, List.filterMap_append]
    exact congrArg _ (congrArg _ (List.append_nil _).symm)
  · simp [h.named, Given.entry?]
  · simp [h.values, Given.placed?]

end Pass

theorem exists_step_named (hd : Parameter.Apart declared) (h : pass.Gathers declared gs)
    (he : Names e p) (hp : p ∈ declared) (hnew : p ∉ gs.filterMap Given.parameter?) {consumed : Nat}
    (hv : valueAfter e rest.head? p.isSwitch = (value, consumed)) (index : Nat) :
    ∃ after, Step ⟨declared, types, none⟩ ⟨index, e :: rest, pass⟩
        ⟨index + 1 + consumed, rest.drop consumed, after⟩ ∧
      after.Gathers declared (gs ++ [.named p value]) :=
  ⟨_, .parameter he.isParameter (.declared (h.found_eq hd he hp hnew) hv),
    h.after_named hd hp hnew value⟩

theorem Blocks.exists_end (hd : Parameter.Apart declared) (h : Blocks declared es given)
    (hpass : pass.Gathers declared gs)
    (honce : ((gs ++ given).filterMap Given.parameter?).Nodup) (index : Nat) :
    ∃ y, Steps ⟨declared, types, none⟩ ⟨index, es, pass⟩ y ∧ y.rest = [] ∧
      y.pass.Gathers declared (gs ++ given) := by
  induction h generalizing gs pass index with
  | nil => exact ⟨_, .refl, rfl, by simpa using hpass⟩
  | @switch e p es given hp he hs hi _ ih =>
    have hv : valueAfter e es.head? p.isSwitch = (.known (.boolean true), 0) := by
      simp [valueAfter, hs, hi]
    obtain ⟨after, hstep, hafter⟩ :=
      exists_step_named hd hpass he hp (Given.notMem_of_once honce) hv index
    obtain ⟨y, hy, hend, hall⟩ := ih hafter (by simpa using honce) (index + 1)
    exact ⟨y, .head hstep hy, hend, by simpa using hall⟩
  | @inline e p s es given hp he hi _ ih =>
    have hv : valueAfter e es.head? p.isSwitch = (inlineValue s, 0) := by simp [valueAfter, hi]
    obtain ⟨after, hstep, hafter⟩ :=
      exists_step_named hd hpass he hp (Given.notMem_of_once honce) hv index
    obtain ⟨y, hy, hend, hall⟩ := ih hafter (by simpa using honce) (index + 1)
    exact ⟨y, .head hstep hy, hend, by simpa using hall⟩
  | @valued e v p es given hp he hs hi hvalue _ ih =>
    have hv : valueAfter e (v :: es).head? p.isSwitch = (valueOf v, 1) := by
      simp [valueAfter, hs, hi, hvalue]
    obtain ⟨after, hstep, hafter⟩ :=
      exists_step_named hd hpass he hp (Given.notMem_of_once honce) hv index
    obtain ⟨y, hy, hend, hall⟩ := ih hafter (by simpa using honce) (index + 1 + 1)
    exact ⟨y, .head hstep hy, hend, by simpa using hall⟩
  | @value v es given hvalue _ ih =>
    obtain ⟨y, hy, hend, hall⟩ :=
      ih (hpass.after_placed index (valueOf v)) (by simpa using honce) (index + 1)
    exact ⟨y, .head (.value hvalue) hy, hend, by simpa using hall⟩

theorem Blocks.gathered (hd : Parameter.Apart declared) (h : Blocks declared es gs)
    (honce : (gs.filterMap Given.parameter?).Nodup) (command : Element)
    (types : Option TypeRegistry) :
    (gathered declared types (command :: es)).Gathers declared gs := by
  obtain ⟨y, hy, hend, hall⟩ := h.exists_end hd (Pass.gathers_start hd) honce 1
  rw [gathered_eq hy hend]
  exact hall

namespace Pass

def taken (pass : Pass) : List (Parameter × Argument) :=
  (byPlace (pass.available.map (·.2))).zip (pass.values.map (·.2))

theorem placed_map_eq_taken (pass : Pass) :
    pass.placed.map (fun pair => (pair.1, pair.2.2)) = pass.taken := by
  rw [placed, taken, List.zip_map_right]
  rfl

theorem finish_eq_taken (pass : Pass) (cursorElement : Option Element) :
    let b := pass.finish cursorElement
    b.named = pass.named.update (pass.taken.map fun pair => (pair.1.name, pair.2)) ∧
      b.positional = (pass.values.map (·.2)).drop pass.taken.length ∧
      b.available = (pass.taken.foldl (fun all pair => all.erase (Text.lower pair.1.name))
        pass.available).map (·.2) := by
  intro b
  rw [← placed_map_eq_taken, List.map_map, List.length_map, List.foldl_map, ← List.map_drop]
  exact ⟨finish_named pass cursorElement, rfl, rfl⟩

theorem finish_congr {x y : Pass} (ha : x.available = y.available)
    (hv : x.values.map (·.2) = y.values.map (·.2))
    (hn : ∀ key, x.named.get? key = y.named.get? key) (cursorElement : Option Element) :
    let b := x.finish cursorElement
    let b' := y.finish cursorElement
    (∀ key, b.named.get? key = b'.named.get? key) ∧ b.positional = b'.positional ∧
      b.available = b'.available := by
  intro b b'
  have htaken : x.taken = y.taken := by rw [taken, taken, ha, hv]
  obtain ⟨hnamed, hpositional, havailable⟩ := finish_eq_taken x cursorElement
  obtain ⟨hnamed', hpositional', havailable'⟩ := finish_eq_taken y cursorElement
  refine ⟨fun key => ?_, ?_, ?_⟩
  · rw [hnamed, hnamed', htaken]
    exact Entries.get?_update_congr hn _ key
  · rw [hpositional, hpositional', htaken, hv]
  · rw [havailable, havailable', htaken, ha]

end Pass

/-- What is given by name may come in any order and anywhere among the other values, as long as
these keep theirs. -/
theorem bind_perm (hd : Parameter.Apart declared) (h : Blocks declared es gs)
    (h' : Blocks declared es' gs') (honce : (gs.filterMap Given.parameter?).Nodup)
    (hperm : gs.Perm gs') (hplaced : gs.filterMap Given.placed? = gs'.filterMap Given.placed?)
    (command : Element) (types : Option TypeRegistry) :
    let b := bind (command :: es) (-1) declared types
    let b' := bind (command :: es') (-1) declared types
    (∀ key, b.named.get? key = b'.named.get? key) ∧ b.positional = b'.positional ∧
      b.available = b'.available ∧ b.errors = [] ∧ b'.errors = [] := by
  intro b b'
  have hparameters := hperm.filterMap Given.parameter?
  have hg := h.gathered hd honce command types
  have hg' := h'.gathered hd (hparameters.nodup_iff.mp honce) command types
  have hnone (es : List Element) : Element.indexAt? (command :: es) (-1) = none := rfl
  have hb : b = (gathered declared types (command :: es)).finish none := by
    simp only [b, bind, hnone, Option.bind_none]
    rfl
  have hb' : b' = (gathered declared types (command :: es')).finish none := by
    simp only [b', bind, hnone, Option.bind_none]
    rfl
  have hnamed := Entries.get?_perm (hperm.filterMap Given.entry?)
    (Given.nodup_keys hd hg.known honce)
  have ha : (gathered declared types (command :: es)).available =
      (gathered declared types (command :: es')).available := by
    rw [hg.available, hg'.available]
    exact congrArg Pass.keyed (List.filter_congr fun p _ =>
      decide_eq_decide.mpr (not_congr hparameters.mem_iff))
  have hv : (gathered declared types (command :: es)).values.map (·.2) =
      (gathered declared types (command :: es')).values.map (·.2) := by
    rw [hg.values, hg'.values, hplaced]
  obtain ⟨hmap, hpositional, havailable⟩ :=
    Pass.finish_congr ha hv (by rwa [hg.named, hg'.named]) none
  rw [hb, hb']
  exact ⟨hmap, hpositional, havailable, hg.errors, hg'.errors⟩

theorem bind_perm_cell :
    let b := bind (Element.ofTokens (Token.scan "Set -Flag x -To a".toList)) (-1) cell none
    let b' := bind (Element.ofTokens (Token.scan "Set -path:a -flag x".toList)) (-1) cell none
    b.named.map (·.1) = ["Flag".toList, "Path".toList, "Text".toList] ∧
      b'.named.map (·.1) = ["Path".toList, "Flag".toList, "Text".toList] ∧
      ∀ key, b.named.get? key = b'.named.get? key := by
  let command : Element := .value [⟨.bare, "Set".toList, "Set".toList, 0, none, true⟩] 0 3
  let flag : Element := .parameter ⟨.parameter, "-Flag".toList, "Flag".toList, 4, none, true⟩ 9
  let x : Element := .value [⟨.bare, ['x'], ['x'], 10, none, true⟩] 10 11
  let path : Element := .parameter ⟨.parameter, "-To".toList, "To".toList, 12, none, true⟩ 15
  let a : Element := .value [⟨.bare, ['a'], ['a'], 16, none, true⟩] 16 17
  let path' : Element :=
    .parameter ⟨.parameter, "-path:a".toList, "path".toList, 4, some ['a'], true⟩ 11
  let flag' : Element := .parameter ⟨.parameter, "-flag".toList, "flag".toList, 12, none, true⟩ 17
  let x' : Element := .value [⟨.bare, ['x'], ['x'], 18, none, true⟩] 18 19
  let pathGiven : Given := .named cell[0] (.known (.text ['a']))
  let flagGiven : Given := .named cell[2] (.known (.boolean true))
  let xGiven : Given := .placed (.known (.text ['x']))
  have hd : Parameter.Apart cell := by unfold Parameter.Apart List.Disjoint; decide +kernel
  have hflag : Names flag cell[2] := ⟨rfl, by decide +kernel, by decide⟩
  have hpath : Names path cell[0] := ⟨rfl, by decide +kernel, by decide⟩
  have hflag' : Names flag' cell[2] := ⟨rfl, by decide +kernel, by decide⟩
  have hpath' : Names path' cell[0] := ⟨rfl, by decide +kernel, by decide⟩
  have h : Blocks cell [flag, x, path, a] [flagGiven, xGiven, pathGiven] :=
    .switch (by simp) hflag rfl rfl (.value rfl (.valued (by simp) hpath rfl rfl rfl .nil))
  have h' : Blocks cell [path', flag', x'] [pathGiven, flagGiven, xGiven] :=
    .inline (by simp) hpath' rfl (.switch (by simp) hflag' rfl rfl (.value rfl .nil))
  have hperm : [flagGiven, xGiven, pathGiven].Perm [pathGiven, flagGiven, xGiven] :=
    show ([flagGiven, xGiven] ++ [pathGiven]).Perm ([pathGiven] ++ _) from List.perm_append_comm
  have hline : Element.ofTokens (Token.scan "Set -Flag x -To a".toList) =
    command :: [flag, x, path, a] := by decide +kernel
  have hline' : Element.ofTokens (Token.scan "Set -path:a -flag x".toList) =
    command :: [path', flag', x'] := by decide +kernel
  have honce : ([flagGiven, xGiven, pathGiven].filterMap Given.parameter?).Nodup :=
    List.Nodup.of_map Parameter.name (by decide +kernel)
  refine ⟨by decide +kernel, by decide +kernel, ?_⟩
  rw [hline, hline']
  exact (bind_perm hd h h' honce hperm rfl command none).1

end Binding

end CommandShell
