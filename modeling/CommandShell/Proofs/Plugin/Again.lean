import CommandShell.Plugin.Load
import CommandShell.Proofs.Command.Registry
import CommandShell.Proofs.Entries

/-!
Loading a package again. Modules that were imported do not run again, and categories and their
descriptions are what they were. What an entry module offers is registered on every load, though,
so that the second is refused.
-/

set_option autoImplicit false

namespace CommandShell

variable {σ : Type}

theorem Registry.isTaken_register {r : Registry σ} (c : Command σ) {key : Text}
    (h : r.isTaken key = true) : (r.register c).1.isTaken key = true := by
  have hadds {r s : Registry σ} (hstep : r.Adds s) (h : r.isTaken key = true) :
      s.isTaken key = true := by
    simp only [isTaken, Bool.or_eq_true, Entries.has_eq_true] at h ⊢
    cases hstep with
    | command => exact h.imp_left fun h => Entries.mem_keys_set.mpr (.inr h)
    | other => exact h.imp_right fun h => Entries.mem_keys_set.mpr (.inr h)
  exact (register_adds r c).rec h fun _ hstep ih => hadds hstep ih

theorem Registry.isTaken_of_register {r : Registry σ} {c : Command σ}
    (h : (r.register c).2 = none) : (r.register c).1.isTaken (Text.lower c.name) = true := by
  rw [isTaken, Bool.or_eq_true]
  refine .inl (Entries.has_eq_true.mpr ?_)
  unfold register at h ⊢
  dsimp only at h ⊢
  split at h
  · cases h
  · rename_i hfree
    rw [if_neg hfree, addAliases_commands]
    exact Entries.mem_keys_set.mpr (.inl rfl)

theorem Registry.register_taken {r : Registry σ} {c : Command σ}
    (h : r.isTaken (Text.lower c.name) = true) : r.register c = (r, some (.nameTaken c.name)) :=
  if_pos h

namespace Loading

variable {installed : List (Module σ)} {l loaded : Loading σ} {m : Module σ}
  {parent path name : List Text} {package : Text} {n : Nat}

structure Grows (l loaded : Loading σ) : Prop where
  imported : l.imported ⊆ loaded.imported
  taken : ∀ key, l.registry.isTaken key = true → loaded.registry.isTaken key = true

theorem Grows.refl (l : Loading σ) : l.Grows l := ⟨List.Subset.refl _, fun _ h => h⟩

theorem Grows.trans {between : Loading σ} (h : l.Grows between) (h' : between.Grows loaded) :
    l.Grows loaded :=
  ⟨List.Subset.trans h.imported h'.imported, fun key hkey => h'.taken key (h.taken key hkey)⟩

/-! ## Imports -/

theorem registerAll_eq_ok {cs : List (Command σ)} (h : l.registerAll cs = (loaded, none)) :
    l.Grows loaded ∧ loaded.imported = l.imported ∧
      ∀ c ∈ cs, loaded.registry.isTaken (Text.lower c.name) = true := by
  induction cs generalizing l with
  | nil =>
    obtain rfl := (Prod.mk.inj h).1
    exact ⟨.refl l, rfl, by simp⟩
  | cons c cs ih =>
    rw [registerAll] at h
    split at h
    · rename_i registry hregister
      obtain ⟨hgrows, himported, htaken⟩ := ih h
      have hstep : l.Grows { l with registry := registry } := by
        refine ⟨List.Subset.refl _, fun key hkey => ?_⟩
        have hkept := Registry.isTaken_register c hkey
        rwa [hregister] at hkept
      have hown : registry.isTaken (Text.lower c.name) = true := by
        have hown := Registry.isTaken_of_register (r := l.registry) (c := c) (by rw [hregister])
        rwa [hregister] at hown
      exact ⟨hstep.trans hgrows, himported,
        List.forall_mem_cons.mpr ⟨hgrows.taken _ hown, htaken⟩⟩
    · cases (Prod.mk.inj h).2

theorem importOne_eq_ok (h : importOne installed l parent name = (loaded, none)) :
    l.Grows loaded ∧ name ∈ loaded.imported := by
  unfold importOne at h
  split at h
  · rename_i hdone
    obtain rfl := (Prod.mk.inj h).1
    exact ⟨.refl l, by simpa using hdone⟩
  · split at h
    · cases (Prod.mk.inj h).2
    · split at h
      · cases (Prod.mk.inj h).2
      · split at h
        · rename_i between hregister
          obtain rfl := (Prod.mk.inj h).1
          obtain ⟨hgrows, -, -⟩ := registerAll_eq_ok hregister
          exact ⟨⟨List.subset_cons_of_subset _ hgrows.imported, hgrows.taken⟩,
            List.mem_cons_self ..⟩
        · cases (Prod.mk.inj h).2

/-- Everything on the way from a package to a module in it is imported. -/
def Reached (l : Loading σ) (parent : List Text) : List Text → Prop
  | [] => True
  | part :: rest => parent ++ [part] ∈ l.imported ∧ Reached l (parent ++ [part]) rest

theorem Reached.mono (h : l.Reached parent path) (hl : l.imported ⊆ loaded.imported) :
    loaded.Reached parent path := by
  induction path generalizing parent with
  | nil => trivial
  | cons part rest ih => exact ⟨hl h.1, ih h.2⟩

theorem Reached.of_append {more : List Text} (h : l.Reached parent (path ++ more)) :
    l.Reached parent path := by
  induction path generalizing parent with
  | nil => trivial
  | cons part rest ih => exact ⟨h.1, ih h.2⟩

theorem importPath_eq_ok (h : importPath installed l parent path = (loaded, none)) :
    l.Grows loaded ∧ loaded.Reached parent path := by
  induction path generalizing l parent with
  | nil =>
    obtain rfl := (Prod.mk.inj h).1
    exact ⟨.refl l, trivial⟩
  | cons part rest ih =>
    rw [importPath] at h
    split at h
    · rename_i between hone
      obtain ⟨hgrows, hthere⟩ := importOne_eq_ok hone
      obtain ⟨hgrows', hreached⟩ := ih h
      exact ⟨hgrows.trans hgrows', hgrows'.imported hthere, hreached⟩
    · cases (Prod.mk.inj h).2

theorem Reached.importPath_eq (h : l.Reached parent path) (installed : List (Module σ)) :
    importPath installed l parent path = (l, none) := by
  induction path generalizing parent with
  | nil => rfl
  | cons part rest ih =>
    have hone : importOne installed l parent (parent ++ [part]) = (l, none) :=
      if_pos (by simpa using h.1)
    rw [importPath, hone]
    exact ih h.2

/-! ## Plugins -/

/-- The module that a plugin is loaded by. -/
def target (installed : List (Module σ)) (m : Module σ) : List Text :=
  if m.kind = .package && hasEntry installed m.name then m.name ++ [entrypoint] else m.name

/-- What the entry module of a plugin offers. -/
def offered (installed : List (Module σ)) (m : Module σ) : List (Command σ) :=
  if m.kind = .package && hasEntry installed m.name then
    ((find? installed (m.name ++ [entrypoint])).map (·.offers)).getD []
  else []

theorem loadPlugin_eq (installed : List (Module σ)) (l : Loading σ) (m : Module σ) :
    loadPlugin installed l m =
      match importPath installed l [] (target installed m) with
      | (l, none) => l.registerAll (offered installed m)
      | failed => failed := by
  unfold loadPlugin target offered
  split
  · rfl
  · split
    · rename_i himport
      exact himport
    · rfl

/-- A plugin is loaded: its modules are imported, and the names of what it offers are taken. -/
structure Holds (installed : List (Module σ)) (l : Loading σ) (m : Module σ) : Prop where
  reached : l.Reached [] (target installed m)
  taken : ∀ c ∈ offered installed m, l.registry.isTaken (Text.lower c.name) = true

theorem Holds.mono (h : l.Holds installed m) (hl : l.Grows loaded) : loaded.Holds installed m :=
  ⟨h.reached.mono hl.imported, fun c hc => hl.taken _ (h.taken c hc)⟩

theorem Holds.reached_name (h : l.Holds installed m) : l.Reached [] m.name := by
  have hreached := h.reached
  unfold target at hreached
  split at hreached
  · exact hreached.of_append
  · exact hreached

theorem loadPlugin_eq_ok (h : loadPlugin installed l m = (loaded, none)) :
    l.Grows loaded ∧ loaded.Holds installed m := by
  rw [loadPlugin_eq] at h
  split at h
  · rename_i between himport
    obtain ⟨hgrows, hreached⟩ := importPath_eq_ok himport
    obtain ⟨hgrows', -, htaken⟩ := registerAll_eq_ok h
    exact ⟨hgrows.trans hgrows', hreached.mono hgrows'.imported, htaken⟩
  · rename_i hfailed
    exact absurd h (hfailed loaded)

theorem loadPlugins_eq_ok {ms : List (Module σ)} (h : loadPlugins installed l ms = (loaded, none)) :
    l.Grows loaded ∧ ∀ m ∈ ms, loaded.Holds installed m := by
  induction ms generalizing l with
  | nil =>
    obtain rfl := (Prod.mk.inj h).1
    exact ⟨.refl l, by simp⟩
  | cons m ms ih =>
    rw [loadPlugins] at h
    split at h
    · rename_i between hone
      obtain ⟨hgrows, hholds⟩ := loadPlugin_eq_ok hone
      obtain ⟨hgrows', hrest⟩ := ih h
      exact ⟨hgrows.trans hgrows', List.forall_mem_cons.mpr ⟨hholds.mono hgrows', hrest⟩⟩
    · rename_i hfailed
      exact absurd h (hfailed loaded)

def refusal? (cs : List (Command σ)) : Option LoadFault :=
  cs.head?.map fun c => .refused (.nameTaken c.name)

theorem registerAll_taken {cs : List (Command σ)}
    (h : ∀ c ∈ cs, l.registry.isTaken (Text.lower c.name) = true) :
    l.registerAll cs = (l, refusal? cs) := by
  cases cs with
  | nil => rfl
  | cons c cs =>
    rw [registerAll, Registry.register_taken (h c (List.mem_cons_self ..))]
    rfl

/-- Plugins that are loaded change nothing when they are loaded again. What the first of them
offers that offers anything is refused. -/
theorem loadPlugins_again {ms : List (Module σ)} (h : ∀ m ∈ ms, l.Holds installed m) :
    loadPlugins installed l ms = (l, refusal? (ms.flatMap (offered installed))) := by
  induction ms with
  | nil => rfl
  | cons m ms ih =>
    obtain ⟨hm, hms⟩ := List.forall_mem_cons.mp h
    have hone : loadPlugin installed l m = (l, refusal? (offered installed m)) := by
      rw [loadPlugin_eq, hm.reached.importPath_eq]
      exact registerAll_taken hm.taken
    rw [loadPlugins, hone, List.flatMap_cons]
    cases hoffered : offered installed m with
    | nil => exact ih hms
    | cons c cs => rfl

/-! ## Categories -/

theorem categorized_categorized (package : Text) (c : Command σ) :
    categorized package (categorized package c) = categorized package c := by
  by_cases h : (decide (c.category = Command.general) &&
      Text.startsWith c.origin (package ++ ['.'])) = true
  · -- the second time the category is read off the same origin, if it is looked at
    match hpieces : Text.pieces (· == '.') (c.origin.drop (package ++ ['.']).length) with
    | category :: part :: rest =>
      have hnamed : categorized package c = { c with category := category } := by
        rw [categorized, if_pos h]
        simp only [hpieces]
      rw [hnamed, categorized]
      split
      · simp only [hpieces]
      · rfl
    | [part] | [] =>
      have hkept : categorized package c = c := by
        rw [categorized, if_pos h]
        simp only [hpieces]
      rw [hkept, hkept]
  · have hkept : categorized package c = c := if_neg h
    rw [hkept, hkept]

theorem assignCategories_again (package : Text) (l : Loading σ) :
    (l.assignCategories package).assignCategories package = l.assignCategories package := by
  simp [assignCategories, Function.comp_def, categorized_categorized]

def descriptions (ms : List (Module σ)) : Entries Text Text :=
  (ms.filter (·.kind = .package)).map fun m => (m.lastName, Text.strip (categoryText m))

def described (ms : List (Module σ)) (l : Loading σ) : Loading σ :=
  { l with registry := { l.registry with
    descriptions := l.registry.descriptions.update (descriptions ms) } }

theorem foldl_describe {ms : List (Module σ)} (h : ∀ m ∈ ms, l.Reached [] m.name) :
    ms.foldl (describe installed) l = l.described ms := by
  induction ms generalizing l with
  | nil => rfl
  | cons m ms ih =>
    obtain ⟨hm, hms⟩ := List.forall_mem_cons.mp h
    have hone : describe installed l m = l.described [m] := by
      rw [describe, hm.importPath_eq]
      by_cases hkind : m.kind = .package <;> simp [described, descriptions, hkind, Entries.update,
        Registry.setDescription]
    have hrest : ∀ m' ∈ ms, (l.described [m]).Reached [] m'.name :=
      fun m' hm' => (hms m' hm').mono (List.Subset.refl _)
    rw [List.foldl_cons, hone, ih hrest]
    by_cases hkind : m.kind = .package <;> simp [described, descriptions, hkind, Entries.update]

theorem described_again (ms : List (Module σ)) (l : Loading σ) :
    ((l.described ms).assignCategories package).described ms =
      ((l.assignCategories package).described ms) := by
  simp only [described, assignCategories, Entries.update_update]

/-! ## Loading -/

def exported (installed : List (Module σ)) (package : Text) : List (Command σ) :=
  (plugins installed (Text.pieces (· == '.') package)).flatMap (offered installed)

/-- A package is loaded: it and all its plugins are. -/
structure Complete (installed : List (Module σ)) (l : Loading σ) (package : Text) : Prop where
  named : package.isEmpty = false ∧ package.head? ≠ some '.'
  reached : l.Reached [] (Text.pieces (· == '.') package)
  isPackage : (find? installed (Text.pieces (· == '.') package)).any (·.kind = .file) = false
  holds : ∀ m ∈ plugins installed (Text.pieces (· == '.') package), l.Holds installed m

theorem Complete.mono (h : l.Complete installed package) (hl : l.Grows loaded) :
    loaded.Complete installed package :=
  ⟨h.named, h.reached.mono hl.imported, h.isPackage, fun m hm => (h.holds m hm).mono hl⟩

theorem grows_assignCategories (package : Text) (l : Loading σ) :
    l.Grows (l.assignCategories package) := by
  refine ⟨List.Subset.refl _, fun key hkey => ?_⟩
  simp only [Registry.isTaken, Entries.has, assignCategories, List.any_map] at hkey ⊢
  exact hkey

theorem grows_described (ms : List (Module σ)) (l : Loading σ) : l.Grows (l.described ms) :=
  ⟨List.Subset.refl _, fun _ h => h⟩

theorem load_eq_ok (h : l.load installed package = (loaded, .ok n)) :
    let found := plugins installed (Text.pieces (· == '.') package)
    loaded.Complete installed package ∧ n = found.length ∧
      ∃ between : Loading σ, loaded = (between.assignCategories package).described found := by
  intro found
  unfold load at h
  split at h
  · cases (Prod.mk.inj h).2
  · split at h
    · cases (Prod.mk.inj h).2
    · dsimp only at h
      split at h
      · cases (Prod.mk.inj h).2
      · split at h
        · cases (Prod.mk.inj h).2
        · split at h
          · cases (Prod.mk.inj h).2
          · rename_i hnonempty habsolute _ before himport hkind _ between hplugins
            obtain ⟨hloaded, hn⟩ := Prod.mk.inj h
            obtain ⟨-, hreached⟩ := importPath_eq_ok himport
            obtain ⟨hgrows, hholds⟩ := loadPlugins_eq_ok hplugins
            have hcomplete : between.Complete installed package :=
              ⟨⟨by simpa using hnonempty, habsolute⟩, hreached.mono hgrows.imported,
                Bool.eq_false_iff.mpr hkind, hholds⟩
            have hdescribed : loaded = (between.assignCategories package).described found :=
              hloaded.symm.trans (foldl_describe fun m hm =>
                (hholds m hm).reached_name.mono (grows_assignCategories package between).imported)
            refine ⟨hdescribed ▸ hcomplete.mono ?_, (Except.ok.inj hn).symm, between, hdescribed⟩
            exact (grows_assignCategories package between).trans (grows_described found _)

/-- A package that is loaded is loaded again: nothing is imported, and what is offered is
refused. -/
theorem Complete.load_eq (h : l.Complete installed package) :
    l.load installed package =
      match exported installed package with
      | [] =>
        let found := plugins installed (Text.pieces (· == '.') package)
        ((l.assignCategories package).described found, .ok found.length)
      | c :: _ => (l, .error (.refused (.nameTaken c.name))) := by
  have hplugins := loadPlugins_again h.holds
  rw [load, if_neg (by simp [h.named.1]), if_neg h.named.2]
  simp only [h.reached.importPath_eq, h.isPackage, Bool.false_eq_true, if_false, exported]
  rw [hplugins]
  cases (plugins installed (Text.pieces (· == '.') package)).flatMap (offered installed) with
  | nil =>
    have hreached : ∀ m ∈ plugins installed (Text.pieces (· == '.') package),
        (l.assignCategories package).Reached [] m.name :=
      fun m hm => (h.holds m hm).reached_name.mono (List.Subset.refl _)
    exact congrArg (·, _) (foldl_describe hreached)
  | cons c cs => rfl

/-- Loading a package a second time leaves everything as it is. It succeeds again, with the same
result, just when no entry module offers a command; the first command that one offers is refused
otherwise. -/
theorem load_again (h : l.load installed package = (loaded, .ok n)) :
    loaded.load installed package =
      (loaded, match exported installed package with
        | [] => .ok n
        | c :: _ => .error (.refused (.nameTaken c.name))) := by
  obtain ⟨hcomplete, rfl, between, rfl⟩ := load_eq_ok h
  rw [hcomplete.load_eq]
  cases exported installed package with
  | nil => simp only [described_again, assignCategories_again]
  | cons c cs => rfl

def reach : Module Unit :=
  ⟨["kit".toList, "reach".toList], .package, some "Far away.".toList, none, [], []⟩

def stretching : List (Module Unit) :=
  [⟨["kit".toList], .package, none, none, [], []⟩, reach,
    ⟨reach.name ++ [entrypoint], .file, none, none, [], [Registry.idle "Go".toList []]⟩]

theorem plugins_stretching : plugins stretching (Text.pieces (· == '.') "kit".toList) = [reach] :=
  List.mergeSort_singleton reach

theorem exported_stretching :
    exported stretching "kit".toList = [Registry.idle "Go".toList []] := by
  rw [exported, plugins_stretching]
  rfl

def stretched : Loading Unit := (empty.load stretching "kit".toList).1

theorem load_stretching : empty.load stretching "kit".toList = (stretched, .ok 1) := by
  refine Prod.ext rfl ?_
  unfold load
  dsimp only
  rw [plugins_stretching]
  rfl

theorem load_again_stretching :
    empty.load stretching "kit".toList = (stretched, .ok 1) ∧
      stretched.load stretching "kit".toList =
        (stretched, .error (.refused (.nameTaken "Go".toList))) := by
  refine ⟨load_stretching, ?_⟩
  rw [load_again load_stretching, exported_stretching]
  rfl

theorem not_loaded_twice :
    ¬ ∀ (installed : List (Module Unit)) (package : Text) (loaded : Loading Unit) (n : Nat),
      empty.load installed package = (loaded, .ok n) →
        loaded.load installed package = (loaded, .ok n) := by
  intro h
  have hagain := h stretching "kit".toList stretched 1 load_stretching
  rw [(load_eq_ok load_stretching).1.load_eq, exported_stretching] at hagain
  cases (Prod.mk.inj hagain).2

end Loading

end CommandShell
