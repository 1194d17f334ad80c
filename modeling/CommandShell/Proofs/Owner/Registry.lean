import CommandShell.Owner.Basic
import CommandShell.Proofs.Entries

/-!
What the names of owner types stand for. Short names are added one after another up to one that
stands for another type. A full name comes before a simple name and this before a short name, so
that a short name stands for its type just as long as no type is called so itself.
-/

set_option autoImplicit false

namespace CommandShell

/-- The name is that of one of the owner types itself, in any case: its full name, or else its
simple name if no other has that. -/
inductive OwnerType.Called (owners : List OwnerType) (name : Text) : OwnerType → Prop where
  | full {owner : OwnerType} : owner ∈ owners → Text.lower owner.fullName = Text.lower name →
      Called owners name owner
  | simple {owner : OwnerType} :
      (∀ other ∈ owners, Text.lower other.fullName ≠ Text.lower name) →
      (owners.filter fun other => Text.lower other.name = Text.lower name) = [owner] →
      Called owners name owner

namespace TypeRegistry

variable {registry next : TypeRegistry} {owner : OwnerType} {shorts : List Text} {name : Text}

inductive Registered : TypeRegistry → Prop where
  | empty : Registered empty
  | register {registry : TypeRegistry} (owner : OwnerType) (shorts : List Text) :
      Registered registry → Registered (registry.register owner shorts).1

/-! ## Short names -/

theorem types_addShorts (registry : TypeRegistry) (owner : OwnerType) (shorts : List Text) :
    (registry.addShorts owner shorts).1.types = registry.types := by
  fun_induction addShorts registry owner shorts with
  | case1 => rfl
  | case2 _ _ _ _ _ _ ih => exact ih
  | case3 => rfl
  | case4 _ _ _ _ _ _ ih => exact ih

theorem addShorts_cons {short : Text} (rest : List Text)
    (h : ∀ existing, registry.shorts.get? (Text.lower short) = some existing →
      existing = Text.lower owner.fullName) :
    ∃ added : TypeRegistry,
      registry.addShorts owner (short :: rest) = added.addShorts owner rest ∧
        ∀ key, added.shorts.get? key =
          if key = Text.lower short then some (Text.lower owner.fullName)
          else registry.shorts.get? key := by
  rw [addShorts]
  cases hexisting : registry.shorts.get? (Text.lower short) with
  | some existing =>
    obtain rfl := h existing hexisting
    refine ⟨_, if_pos rfl, fun key => ?_⟩
    by_cases hkey : key = Text.lower short
    · rw [if_pos hkey, hkey, hexisting]
    · rw [if_neg hkey]
  | none =>
    refine ⟨_, rfl, fun key => ?_⟩
    by_cases hkey : key = Text.lower short
    · rw [if_pos hkey, hkey, Entries.get?_set_self]
    · rw [if_neg hkey, Entries.get?_set_ne _ _ hkey]

theorem addShorts_cases (registry : TypeRegistry) (owner : OwnerType) (shorts : List Text) :
    (registry.addShorts owner shorts).2 = none ∨
      ∃ kept short rest, shorts = kept ++ short :: rest ∧
        (registry.addShorts owner shorts).2 = some (.shortTaken short owner.fullName) ∧
        registry.addShorts owner kept = ((registry.addShorts owner shorts).1, none) := by
  fun_induction addShorts registry owner shorts with
  | case1 => exact .inl rfl
  | case2 registry short rest key lowered hsame ih =>
    refine ih.imp_right ?_
    rintro ⟨kept, other, more, rfl, hfault, hkept⟩
    refine ⟨short :: kept, other, more, rfl, hfault, ?_⟩
    rw [addShorts, hsame]
    exact (if_pos rfl).trans hkept
  | case3 registry short rest => exact .inr ⟨[], short, rest, rfl, rfl, rfl⟩
  | case4 registry short rest key lowered hnone ih =>
    refine ih.imp_right ?_
    rintro ⟨kept, other, more, rfl, hfault, hkept⟩
    refine ⟨short :: kept, other, more, rfl, hfault, ?_⟩
    rw [addShorts, hnone]
    exact hkept

/-- A registry and the same with short names for a type: each stands for it then, and none stood for
another before. -/
structure Gives (registry : TypeRegistry) (owner : OwnerType) (shorts : List Text)
    (next : TypeRegistry) : Prop where
  stands : ∀ key, next.shorts.get? key =
    if key ∈ shorts.map Text.lower then some (Text.lower owner.fullName)
    else registry.shorts.get? key
  free : ∀ key ∈ shorts.map Text.lower, ∀ existing, registry.shorts.get? key = some existing →
    existing = Text.lower owner.fullName

theorem addShorts_gives (h : registry.addShorts owner shorts = (next, none)) :
    registry.Gives owner shorts next := by
  induction shorts generalizing registry with
  | nil =>
    obtain rfl := (Prod.mk.inj h).1
    exact ⟨fun key => (if_neg List.not_mem_nil).symm, fun _ hkey => nomatch hkey⟩
  | cons short rest ih =>
    have hfree : ∀ existing, registry.shorts.get? (Text.lower short) = some existing →
        existing = Text.lower owner.fullName := by
      intro existing hexisting
      rw [addShorts, hexisting] at h
      exact Decidable.byContradiction fun hne => by simp [hne] at h
    obtain ⟨added, hadded, hshorts⟩ := addShorts_cons rest hfree
    obtain ⟨hnext, hold⟩ := ih (hadded ▸ h)
    constructor
    · intro key
      rw [hnext, hshorts, List.map_cons]
      by_cases hkey : key = Text.lower short
      · simp [hkey]
      · simp [hkey]
    · intro key hmem existing hexisting
      rw [List.map_cons, List.mem_cons] at hmem
      by_cases hkey : key = Text.lower short
      · exact hfree existing (hkey ▸ hexisting)
      · refine hold key (hmem.resolve_left hkey) existing ?_
        rw [hshorts, if_neg hkey, hexisting]

/-! ## Registration -/

theorem register_cases (registry : TypeRegistry) (owner : OwnerType) (shorts : List Text) :
    Text.lower owner.fullName ∈ registry.types.map (·.1) ∧
        registry.register owner shorts = (registry, some (.typeTaken owner.fullName)) ∨
      Text.lower owner.fullName ∉ registry.types.map (·.1) ∧
        registry.register owner shorts = addShorts
          { registry with types := registry.types ++ [(Text.lower owner.fullName, owner)] }
          owner shorts := by
  rw [register]
  split
  · rename_i htaken
    exact .inl ⟨Entries.has_eq_true.mp htaken, rfl⟩
  · rename_i hfree
    have hnew := mt Entries.has_eq_true.mpr hfree
    rw [Entries.set_of_notMem owner hnew]
    exact .inr ⟨hnew, rfl⟩

theorem types_register (h : registry.register owner shorts = (next, none)) :
    Text.lower owner.fullName ∉ registry.types.map (·.1) ∧
      next.types = registry.types ++ [(Text.lower owner.fullName, owner)] := by
  rcases register_cases registry owner shorts with ⟨-, hrefused⟩ | ⟨hnew, hadded⟩
  · cases hrefused.symm.trans h
  · have hnext := congrArg Prod.fst (hadded.symm.trans h)
    exact ⟨hnew, (congrArg types hnext).symm.trans (types_addShorts ..)⟩

theorem register_gives (h : registry.register owner shorts = (next, none)) :
    registry.Gives owner shorts next := by
  rcases register_cases registry owner shorts with ⟨-, hrefused⟩ | ⟨-, hadded⟩
  · cases hrefused.symm.trans h
  · have hgives := addShorts_gives (hadded.symm.trans h)
    exact ⟨hgives.stands, hgives.free⟩

/-- A refusal leaves the registry as it was, or as the short names in front of the refused one
leave it. -/
theorem register_refused {fault : OwnerFault}
    (h : (registry.register owner shorts).2 = some fault) :
    fault = .typeTaken owner.fullName ∧ Text.lower owner.fullName ∈ registry.types.map (·.1) ∧
        (registry.register owner shorts).1 = registry ∨
      ∃ kept short rest, shorts = kept ++ short :: rest ∧
        fault = .shortTaken short owner.fullName ∧
        registry.register owner kept = ((registry.register owner shorts).1, none) := by
  rcases register_cases registry owner shorts with ⟨htaken, hrefused⟩ | ⟨hnew, hadded⟩
  · rw [hrefused] at h ⊢
    exact .inl ⟨(Option.some.inj h).symm, htaken, rfl⟩
  · rw [hadded] at h ⊢
    rcases addShorts_cases _ owner shorts with hnone | ⟨kept, short, rest, hshorts, hfault, hkept⟩
    · cases hnone.symm.trans h
    · refine .inr ⟨kept, short, rest, hshorts, Option.some.inj (h.symm.trans hfault), ?_⟩
      rcases register_cases registry owner kept with ⟨htaken, -⟩ | ⟨-, hagain⟩
      · exact absurd htaken hnew
      · rw [hagain, hkept]

def Closed (registry : TypeRegistry) : Prop :=
  ∀ key fullName, registry.shorts.get? key = some fullName →
    fullName ∈ registry.types.map (·.1)

theorem Closed.register (hc : registry.Closed)
    (h : registry.register owner shorts = (next, none)) : next.Closed := by
  intro key fullName hkey
  rw [(types_register h).2, List.map_append, List.mem_append]
  rw [(register_gives h).stands] at hkey
  split at hkey
  · exact .inr (by simpa using hkey.symm)
  · exact .inl (hc key fullName hkey)

theorem Registered.closed (h : registry.Registered) : registry.Closed := by
  induction h with
  | empty => exact fun _ _ hkey => nomatch hkey
  | @register registry owner shorts _ ih =>
    cases hfault : (registry.register owner shorts).2 with
    | none => exact ih.register (Prod.ext rfl hfault)
    | some fault =>
      rcases register_refused hfault with ⟨-, -, hsame⟩ | ⟨_, _, _, -, -, hkept⟩
      · rw [hsame]
        exact ih
      · exact ih.register hkept

/-- A new type changes only what its own names stand for. -/
theorem resolve_register (hc : registry.Closed)
    (h : registry.register owner shorts = (next, none))
    (hfull : Text.lower name ≠ Text.lower owner.fullName)
    (hsimple : Text.lower name ≠ Text.lower owner.name)
    (hshort : Text.lower name ∉ shorts.map Text.lower) :
    next.resolve name = registry.resolve name := by
  obtain ⟨hnew, htypes⟩ := types_register h
  have hget {key : Text} (hne : key ≠ Text.lower owner.fullName) :
      next.types.get? key = registry.types.get? key := by
    rw [htypes, ← Entries.set_of_notMem owner hnew, Entries.get?_set_ne _ _ hne]
  have hall : (next.all.filter fun other => Text.lower other.name = Text.lower name) =
      registry.all.filter fun other => Text.lower other.name = Text.lower name := by
    simp [all, htypes, Ne.symm hsimple]
  have hbind : (next.shorts.get? (Text.lower name)).bind next.types.get? =
      (registry.shorts.get? (Text.lower name)).bind registry.types.get? := by
    rw [(register_gives h).stands, if_neg hshort]
    refine Option.bind_congr fun fullName hfullName => hget fun he => hnew ?_
    exact he ▸ hc _ fullName hfullName
  rw [resolve, resolve, hget hfull, hall, hbind]

/-! ## What a name stands for -/

/-- The types that were registered, each with its short names, and the registry that they lead to
when none is refused. -/
inductive Accepted : List (OwnerType × List Text) → TypeRegistry → Prop where
  | empty : Accepted [] empty
  | register {given : List (OwnerType × List Text)} {registry next : TypeRegistry}
      {owner : OwnerType} {shorts : List Text} : Accepted given registry →
      registry.register owner shorts = (next, none) →
      Accepted (given ++ [(owner, shorts)]) next

variable {given : List (OwnerType × List Text)}

/-- The registry holds these types and short names and no others. -/
structure Records (registry : TypeRegistry) (given : List (OwnerType × List Text)) : Prop where
  types : registry.types = given.map fun g => (Text.lower g.1.fullName, g.1)
  nodup : (registry.types.map (·.1)).Nodup
  shorts : ∀ key fullName, registry.shorts.get? key = some fullName ↔
    ∃ g ∈ given, key ∈ g.2.map Text.lower ∧ Text.lower g.1.fullName = fullName

theorem Records.register (hr : registry.Records given)
    (h : registry.register owner shorts = (next, none)) :
    next.Records (given ++ [(owner, shorts)]) := by
  obtain ⟨hnew, htypes⟩ := types_register h
  obtain ⟨hshorts, hold⟩ := register_gives h
  constructor
  · rw [htypes, hr.types, List.map_append]
    rfl
  · rw [htypes, ← Entries.set_of_notMem owner hnew]
    exact Entries.nodup_keys_set hr.nodup _ _
  · intro key fullName
    rw [hshorts]
    split
    · rename_i hkey
      constructor
      · intro hfull
        exact ⟨(owner, shorts), List.mem_append_right _ (List.mem_singleton_self _), hkey,
          Option.some.inj hfull⟩
      · rintro ⟨g, hg, hmem, rfl⟩
        rcases List.mem_append.mp hg with hg | hg
        · rw [hold key hkey _ ((hr.shorts key _).mpr ⟨g, hg, hmem, rfl⟩)]
        · rw [List.mem_singleton.mp hg]
    · rename_i hkey
      rw [hr.shorts]
      constructor
      · rintro ⟨g, hg, hmem⟩
        exact ⟨g, List.mem_append_left _ hg, hmem⟩
      · rintro ⟨g, hg, hmem, hfull⟩
        rcases List.mem_append.mp hg with hg | hg
        · exact ⟨g, hg, hmem, hfull⟩
        · rw [List.mem_singleton.mp hg] at hmem
          exact absurd hmem hkey

theorem Accepted.records (h : Accepted given registry) : registry.Records given := by
  induction h with
  | empty =>
    exact ⟨rfl, List.nodup_nil, fun key fullName => by simp [TypeRegistry.empty, Entries.get?_nil]⟩
  | register _ hregister ih => exact ih.register hregister

namespace Records

theorem all_eq (h : registry.Records given) : registry.all = given.map (·.1) := by
  rw [all, h.types, List.map_map]
  rfl

theorem nodup_all (h : registry.Records given) : registry.all.Nodup := by
  have hkeys : registry.types.map (·.1) = registry.all.map fun owner =>
      Text.lower owner.fullName := by
    rw [all, h.types, List.map_map, List.map_map, List.map_map]
    rfl
  exact (hkeys ▸ h.nodup).of_map _

theorem get?_types (h : registry.Records given) {key : Text} :
    registry.types.get? key = some owner ↔
      owner ∈ given.map (·.1) ∧ Text.lower owner.fullName = key := by
  rw [Entries.get?_eq_some_iff h.nodup, h.types]
  simp only [List.mem_map, Prod.mk.injEq]
  constructor
  · rintro ⟨g, hg, rfl, rfl⟩
    exact ⟨⟨g, hg, rfl⟩, rfl⟩
  · rintro ⟨⟨g, hg, rfl⟩, rfl⟩
    exact ⟨g, hg, rfl, rfl⟩

theorem resolve_called (h : registry.Records given)
    (hcalled : OwnerType.Called (given.map (·.1)) name owner) :
    registry.resolve name = some owner := by
  rw [resolve]
  cases hcalled with
  | full hmem hname => rw [h.get?_types.mpr ⟨hmem, hname⟩]
  | simple hnone hone =>
    have hget : registry.types.get? (Text.lower name) = none :=
      Option.eq_none_iff_forall_ne_some.mpr fun other hother =>
        hnone other (h.get?_types.mp hother).1 (h.get?_types.mp hother).2
    rw [hget, h.all_eq, hone]

theorem resolve_notCalled (h : registry.Records given)
    (hnot : ∀ owner, ¬ OwnerType.Called (given.map (·.1)) name owner) :
    registry.resolve name = (registry.shorts.get? (Text.lower name)).bind registry.types.get? := by
  have hnone : ∀ other ∈ given.map (·.1), Text.lower other.fullName ≠ Text.lower name :=
    fun other hother he => hnot other (.full hother he)
  have hget : registry.types.get? (Text.lower name) = none :=
    Option.eq_none_iff_forall_ne_some.mpr fun other hother =>
      hnone other (h.get?_types.mp hother).1 (h.get?_types.mp hother).2
  rw [resolve, hget, h.all_eq]
  dsimp only
  split
  · rename_i owner hone
    exact absurd (.simple hnone hone) (hnot owner)
  · rfl

theorem get?_shorts (h : registry.Records given) (hmem : (owner, shorts) ∈ given)
    (hname : Text.lower name ∈ shorts.map Text.lower) :
    (registry.shorts.get? (Text.lower name)).bind registry.types.get? = some owner := by
  rw [(h.shorts _ _).mpr ⟨_, hmem, hname, rfl⟩, Option.bind_some]
  exact h.get?_types.mpr ⟨List.mem_map_of_mem hmem, rfl⟩

end Records

/-- Whatever was refused on the way, the registry is that of calls that succeeded. -/
theorem Registered.exists_accepted (h : registry.Registered) :
    ∃ given, Accepted given registry := by
  induction h with
  | empty => exact ⟨[], .empty⟩
  | @register registry owner shorts _ ih =>
    obtain ⟨given, hgiven⟩ := ih
    cases hfault : (registry.register owner shorts).2 with
    | none => exact ⟨_, hgiven.register (Prod.ext rfl hfault)⟩
    | some fault =>
      rcases register_refused hfault with ⟨-, -, hsame⟩ | ⟨_, _, _, -, -, hkept⟩
      · exact ⟨given, by rwa [hsame]⟩
      · exact ⟨_, hgiven.register hkept⟩

def Names (name : Text) (owner : OwnerType) : Prop :=
  Text.lower owner.name = Text.lower name ∨ Text.lower owner.fullName = Text.lower name

theorem Registered.resolve_name (h : registry.Registered) (hmem : owner ∈ registry.all)
    (halone : ∀ other ∈ registry.all, Names owner.name other → other = owner) :
    registry.resolve owner.name = some owner := by
  classical
  obtain ⟨given, hgiven⟩ := h.exists_accepted
  have hr := hgiven.records
  refine hr.resolve_called (hr.all_eq ▸ ?_)
  by_cases hfull : ∃ other ∈ registry.all, Text.lower other.fullName = Text.lower owner.name
  · obtain ⟨other, hother, hname⟩ := hfull
    obtain rfl := halone other hother (.inr hname)
    exact .full hmem hname
  · refine .simple (fun other hother hname => hfull ⟨other, hother, hname⟩) ?_
    have hfilter : (registry.all.filter fun other =>
        Text.lower other.name = Text.lower owner.name) = registry.all.filter (· = owner) := by
      refine List.filter_congr fun other hother => decide_eq_decide.mpr ⟨fun hname => ?_, ?_⟩
      · exact halone other hother (.inl hname)
      · rintro rfl
        rfl
    rw [hfilter, List.filter_eq, hr.nodup_all.count, if_pos hmem]
    rfl

/-- Where no registration was refused, every full name stands for its type, whatever else was
registered. A short name stands for the type that is called so itself, if one is, and else for the
type that it was given to. -/
theorem resolve_accepted (h : Accepted given registry) (hmem : (owner, shorts) ∈ given) :
    (∀ name, Text.lower name = Text.lower owner.fullName → registry.resolve name = some owner) ∧
    ∀ short ∈ shorts, ∀ name, Text.lower name = Text.lower short →
      (∀ other, OwnerType.Called (given.map (·.1)) name other →
        registry.resolve name = some other) ∧
      ((∀ other, ¬ OwnerType.Called (given.map (·.1)) name other) →
        registry.resolve name = some owner) := by
  have hr := h.records
  refine ⟨fun name hname => hr.resolve_called (.full (List.mem_map_of_mem hmem) hname.symm), ?_⟩
  intro short hshort name hname
  refine ⟨fun other hother => hr.resolve_called hother, fun hnot => ?_⟩
  rw [hr.resolve_notCalled hnot]
  exact hr.get?_shorts hmem (hname ▸ List.mem_map_of_mem hshort)

def panel : OwnerType := ⟨"DockPanel".toList, "Controls".toList, []⟩

def dock : OwnerType := ⟨"Dock".toList, [], []⟩

def paneled : TypeRegistry := (empty.register panel ["Dock".toList, "DP".toList]).1

def docked : TypeRegistry := (paneled.register dock []).1

theorem docked_accepted :
    Accepted [(panel, ["Dock".toList, "DP".toList]), (dock, [])] docked :=
  .register (.register .empty (Prod.ext rfl (by decide +kernel))) (Prod.ext rfl (by decide +kernel))

theorem resolve_accepted_docked :
    docked.resolve "controls.dockpanel".toList = some panel ∧
      docked.resolve "dp".toList = some panel ∧ docked.resolve "dock".toList = some dock := by
  obtain ⟨hfull, hshorts⟩ := resolve_accepted docked_accepted (List.mem_cons_self ..)
  refine ⟨hfull _ (by decide +kernel), ?_, ?_⟩
  · refine (hshorts "DP".toList (by decide) _ (by decide +kernel)).2 fun other hother => ?_
    have hfree : ∀ owner ∈ [panel, dock], Text.lower owner.fullName ≠ Text.lower "dp".toList := by
      decide +kernel
    cases hother with
    | full hmem hname => exact hfree other hmem hname
    | simple _ hone =>
      have hnone : ([panel, dock].filter fun other =>
        Text.lower other.name = Text.lower "dp".toList) = [] := by decide +kernel
      cases hnone.symm.trans hone
  · exact (hshorts "Dock".toList (by decide) _ (by decide +kernel)).1 dock
      (.full (by simp) (by decide +kernel))

/-- The short name was given to the first type, and the second is called so. -/
theorem resolve_docked :
    Accepted [(panel, ["Dock".toList, "DP".toList]), (dock, [])] docked ∧
      docked.resolve "Dock".toList ≠ some panel := by
  refine ⟨docked_accepted, fun hpanel => ?_⟩
  have hname : (docked.resolve "Dock".toList).map (·.name) ≠ some panel.name := by decide +kernel
  exact hname (congrArg (Option.map (·.name)) hpanel)

end TypeRegistry

end CommandShell
