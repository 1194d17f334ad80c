import CommandShell.Proofs.Command.Registry
import CommandShell.Proofs.Owner.Registry

/-!
What a refused registration leaves behind. What is refused for its own name leaves nothing. What is
refused for another name, or for a short name, is there all the same, with the other names in front
of the refused one.
-/

set_option autoImplicit false

namespace CommandShell

namespace Registry

variable {σ : Type} {r s : Registry σ} {c : Command σ} {kept : List Text}

structure Alike (r s : Registry σ) : Prop where
  get? : ∀ name, s.get? name = r.get? name
  names : s.names = r.names
  all : s.all = r.all
  categories : s.categories = r.categories

/-- A registry with one more command, under its name. -/
def put (r : Registry σ) (c : Command σ) : Registry σ :=
  { r with commands := r.commands ++ [(Text.lower c.name, c)] }

def call (r : Registry σ) (command : Text) (others : List Text) : Registry σ :=
  { r with
    aliases := r.aliases ++ others.map fun other => (Text.lower other, Text.lower command)
    spelled := r.spelled ++ others.map fun other => (Text.lower other, other) }

theorem addAliases_cases (hkeys : r.spelled.map (·.1) = r.aliases.map (·.1)) (command : Text)
    (others : List Text) :
    ∃ kept rest, others = kept ++ rest ∧
      (r.addAliases command others).1 = r.call command kept ∧
      (∀ key ∈ kept.map Text.lower, r.isTaken key = false) ∧
      ((r.addAliases command others).2 = none ∧ rest = [] ∨
        ∃ other more, rest = other :: more ∧
          (r.addAliases command others).2 = some (.aliasTaken other command)) := by
  induction others generalizing r with
  | nil => exact ⟨[], [], rfl, by simp [addAliases, call], nofun, .inl ⟨rfl, rfl⟩⟩
  | cons other rest ih =>
    rw [addAliases]
    split
    · exact ⟨[], other :: rest, rfl, by simp [call], nofun, .inr ⟨other, rest, rfl, rfl⟩⟩
    · rename_i hfree
      have hfree := Bool.eq_false_iff.mpr hfree
      have hnew := (isTaken_eq_false.mp hfree).2
      rw [Entries.set_of_notMem _ hnew, Entries.set_of_notMem _ (hkeys ▸ hnew)]
      obtain ⟨kept, later, rfl, hstate, hkept, hfault⟩ := ih (r := { r with
        aliases := r.aliases ++ [(Text.lower other, Text.lower command)]
        spelled := r.spelled ++ [(Text.lower other, other)] }) (by simp [hkeys])
      refine ⟨other :: kept, later, rfl, ?_, ?_, hfault⟩
      · rw [hstate]
        simp [call]
      · intro key hkey
        rw [List.map_cons, List.mem_cons] at hkey
        rcases hkey with rfl | hkey
        · exact hfree
        · have hlater := isTaken_eq_false.mp (hkept key hkey)
          rw [List.map_append, List.mem_append] at hlater
          exact isTaken_eq_false.mpr ⟨hlater.1, fun hmem => hlater.2 (.inl hmem)⟩

theorem register_refused (hr : r.Registered) {fault : RegistrationFault}
    (h : (r.register c).2 = some fault) :
    r.isTaken (Text.lower c.name) = true ∧ fault = .nameTaken c.name ∧ (r.register c).1 = r ∨
      r.isTaken (Text.lower c.name) = false ∧
        ∃ kept other rest, c.aliases = kept ++ other :: rest ∧
          fault = .aliasTaken other c.name ∧ (r.register c).1 = (r.put c).call c.name kept ∧
          ∀ key ∈ kept.map Text.lower, (r.put c).isTaken key = false := by
  rw [register] at h ⊢
  cases htaken : r.isTaken (Text.lower c.name) with
  | true =>
    rw [htaken] at h
    exact .inl ⟨rfl, (Option.some.inj h).symm, rfl⟩
  | false =>
    rw [htaken] at h
    rw [Entries.set_of_notMem c (isTaken_eq_false.mp htaken).1] at h ⊢
    refine .inr ⟨rfl, ?_⟩
    obtain ⟨kept, rest, hothers, hstate, hkept, hfault⟩ :=
      addAliases_cases (r := r.put c) hr.keys_spelled c.name c.aliases
    rcases hfault with ⟨hnone, -⟩ | ⟨other, more, rfl, hrefused⟩
    · cases hnone.symm.trans h
    · exact ⟨kept, other, more, hothers, Option.some.inj (h.symm.trans hrefused), hstate, hkept⟩

theorem get?_put_call (hr : r.Registered) (hfree : r.isTaken (Text.lower c.name) = false)
    (hkept : ∀ key ∈ kept.map Text.lower, (r.put c).isTaken key = false) (name : Text) :
    ((r.put c).call c.name kept).get? name =
      if Text.lower name = Text.lower c.name ∨ Text.lower name ∈ kept.map Text.lower then some c
      else r.get? name := by
  obtain ⟨hcommand, hother⟩ := isTaken_eq_false.mp hfree
  have hput (key : Text) : (r.put c).commands.get? key =
      if key = Text.lower c.name then some c else r.commands.get? key := by
    rw [put, ← Entries.set_of_notMem c hcommand]
    split
    · rename_i hkey
      rw [hkey, Entries.get?_set_self]
    · rename_i hkey
      exact Entries.get?_set_ne _ _ hkey
  have hcommands : ((r.put c).call c.name kept).commands = (r.put c).commands := rfl
  have hothers : ((r.put c).call c.name kept).aliases =
      r.aliases ++ kept.map fun other => (Text.lower other, Text.lower c.name) := rfl
  rw [get?_eq_or, get?_eq_or, hcommands, hothers, hput, Entries.get?_append]
  by_cases hname : Text.lower name = Text.lower c.name
  · simp [hname]
  · rw [if_neg hname]
    by_cases hmem : Text.lower name ∈ kept.map Text.lower
    · obtain ⟨hnone, hnew⟩ := isTaken_eq_false.mp (hkept _ hmem)
      rw [put, List.map_append, List.mem_append, not_or] at hnone
      have haliases : r.aliases.get? (Text.lower name) = none := Entries.get?_of_notMem hnew
      rw [Entries.get?_map_const _ hmem, haliases, if_pos (.inr hmem), Option.none_or,
        Entries.get?_of_notMem hnone.1, Option.none_or, Option.bind_some, hput, if_pos rfl]
    · have hnone : Entries.get? (kept.map fun other => (Text.lower other, Text.lower c.name))
          (Text.lower name) = none := Entries.get?_of_notMem (by simpa using hmem)
      rw [hnone, Option.or_none, if_neg (not_or.mpr ⟨hname, hmem⟩)]
      congr 1
      refine Option.bind_congr fun command hfound => ?_
      have hne : command ≠ Text.lower c.name := fun he =>
        hcommand (he ▸ hr.closed _ (Entries.mem_of_get? hfound))
      rw [hput, if_neg hne]

/-- The second registry answers as the first with a command and some of its other names more. -/
structure Grows (r s : Registry σ) (c : Command σ) (kept : List Text) : Prop where
  get? : ∀ name, s.get? name =
    if Text.lower name = Text.lower c.name ∨ Text.lower name ∈ kept.map Text.lower then some c
    else r.get? name
  names : s.names = r.all.map (·.name) ++ c.name :: (r.spelled.map (·.2) ++ kept)
  all : s.all = r.all ++ [c]
  categories : s.categories = Entries.set r.categories c.category
    ((Entries.get? r.categories c.category).getD [] ++ [c])

theorem Grows.not_alike (h : r.Grows s c kept) : ¬ r.Alike s := fun halike => by
  have hlength := congrArg List.length (h.all.symm.trans halike.all)
  simp at hlength

theorem grows_put_call (hr : r.Registered) (hfree : r.isTaken (Text.lower c.name) = false)
    (hkept : ∀ key ∈ kept.map Text.lower, (r.put c).isTaken key = false) :
    r.Grows ((r.put c).call c.name kept) c kept := by
  have hall : ((r.put c).call c.name kept).all = r.all ++ [c] := by simp [all, call, put]
  have hspelled : ((r.put c).call c.name kept).spelled.map (·.2) = r.spelled.map (·.2) ++ kept := by
    simp [call, put, Function.comp_def]
  refine ⟨get?_put_call hr hfree hkept, ?_, hall, ?_⟩
  · rw [names, hall, hspelled]
    simp
  · rw [categories, hall, List.foldl_append]
    rfl

theorem register_leaves (hr : r.Registered) {fault : RegistrationFault}
    (h : (r.register c).2 = some fault) :
    (r.isTaken (Text.lower c.name) = true ∧ fault = .nameTaken c.name ∧
        r.Alike (r.register c).1) ∨
      r.isTaken (Text.lower c.name) = false ∧ ∃ kept other rest,
        c.aliases = kept ++ other :: rest ∧ fault = .aliasTaken other c.name ∧
          r.Grows (r.register c).1 c kept := by
  rcases register_refused hr h with
    ⟨htaken, hfault, hsame⟩ | ⟨hfree, kept, other, rest, hothers, hfault, hstate, hkept⟩
  · rw [hsame]
    exact .inl ⟨htaken, hfault, fun _ => rfl, rfl, rfl, rfl⟩
  · rw [hstate]
    exact .inr ⟨hfree, kept, other, rest, hothers, hfault, grows_put_call hr hfree hkept⟩

end Registry

namespace TypeRegistry

variable {registry next : TypeRegistry} {owner : OwnerType} {shorts kept : List Text}

structure Alike (registry next : TypeRegistry) : Prop where
  resolve : ∀ name, next.resolve name = registry.resolve name
  membersOf : ∀ name, next.membersOf name = registry.membersOf name
  all : next.all = registry.all
  names : next.names = registry.names

/-- The second registry is the first with a type and some short names more. Names that are none of
these stand for what they stood for. -/
structure Grows (registry next : TypeRegistry) (owner : OwnerType) (kept : List Text) : Prop where
  register : registry.register owner kept = (next, none)
  all : next.all = registry.all ++ [owner]
  resolve_self : ∀ name, Text.lower name = Text.lower owner.fullName →
    next.resolve name = some owner
  resolve_other : ∀ name, Text.lower name ≠ Text.lower owner.fullName →
    Text.lower name ≠ Text.lower owner.name → Text.lower name ∉ kept.map Text.lower →
    next.resolve name = registry.resolve name

theorem Grows.not_alike (h : registry.Grows next owner kept) : ¬ registry.Alike next :=
  fun halike => by
    have hlength := congrArg List.length (h.all.symm.trans halike.all)
    simp at hlength

theorem grows_of_register (hc : registry.Closed)
    (h : registry.register owner kept = (next, none)) : registry.Grows next owner kept := by
  obtain ⟨hnew, htypes⟩ := types_register h
  refine ⟨h, by simp [TypeRegistry.all, htypes], fun name hname => ?_,
    fun name hfull hsimple hshort => resolve_register hc h hfull hsimple hshort⟩
  rw [resolve, htypes, ← Entries.set_of_notMem owner hnew, hname, Entries.get?_set_self]

theorem register_leaves (hr : registry.Registered) {fault : OwnerFault}
    (h : (registry.register owner shorts).2 = some fault) :
    (registry.types.has (Text.lower owner.fullName) = true ∧ fault = .typeTaken owner.fullName ∧
        registry.Alike (registry.register owner shorts).1) ∨
      registry.types.has (Text.lower owner.fullName) = false ∧ ∃ kept short rest,
        shorts = kept ++ short :: rest ∧ fault = .shortTaken short owner.fullName ∧
          registry.Grows (registry.register owner shorts).1 owner kept := by
  rcases register_refused h with
    ⟨hfault, htaken, hsame⟩ | ⟨kept, short, rest, hshorts, hfault, hkept⟩
  · rw [hsame]
    exact .inl ⟨Entries.has_eq_true.mpr htaken, hfault, fun _ => rfl, fun _ => rfl, rfl, rfl⟩
  · have hnew := mt Entries.has_eq_true.mp (types_register hkept).1
    exact .inr ⟨Bool.eq_false_iff.mpr hnew, kept, short, rest, hshorts, hfault,
      grows_of_register hr.closed hkept⟩

end TypeRegistry

theorem split_refusal {taken : Bool} {own alike left : Prop} (hleft : left → ¬ alike)
    (h : (taken = true ∧ own ∧ alike) ∨ taken = false ∧ left) :
    (alike ↔ taken = true) ∧ (taken = true → own) ∧ (taken = false → left) := by
  rcases h with ⟨rfl, hown, halike⟩ | ⟨rfl, hl⟩
  · exact ⟨iff_of_true halike rfl, fun _ => hown, nofun⟩
  · exact ⟨iff_of_false (hleft hl) nofun, nofun, fun _ => hl⟩

/-- A refusal leaves every look-up as it was just when the command or the type was refused for its
own name. A command that was refused for another name is registered all the same, with the other
names in front of that one, and so is a type that was refused for a short name. -/
theorem refused_registration {σ : Type} :
    (∀ (r : Registry σ) (c : Command σ) (fault : RegistrationFault),
      r.Registered → (r.register c).2 = some fault →
      (r.Alike (r.register c).1 ↔ r.isTaken (Text.lower c.name) = true) ∧
      (r.isTaken (Text.lower c.name) = true → fault = .nameTaken c.name) ∧
      (r.isTaken (Text.lower c.name) = false → ∃ kept other rest,
        c.aliases = kept ++ other :: rest ∧ fault = .aliasTaken other c.name ∧
          r.Grows (r.register c).1 c kept)) ∧
    ∀ (registry : TypeRegistry) (owner : OwnerType) (shorts : List Text) (fault : OwnerFault),
      registry.Registered → (registry.register owner shorts).2 = some fault →
      (registry.Alike (registry.register owner shorts).1 ↔
        registry.types.has (Text.lower owner.fullName) = true) ∧
      (registry.types.has (Text.lower owner.fullName) = true →
        fault = .typeTaken owner.fullName) ∧
      (registry.types.has (Text.lower owner.fullName) = false → ∃ kept short rest,
        shorts = kept ++ short :: rest ∧ fault = .shortTaken short owner.fullName ∧
          registry.Grows (registry.register owner shorts).1 owner kept) := by
  constructor
  · intro r c fault hr hfault
    refine split_refusal ?_ (Registry.register_leaves hr hfault)
    rintro ⟨_, _, _, -, -, hgrows⟩
    exact hgrows.not_alike
  · intro registry owner shorts fault hr hfault
    refine split_refusal ?_ (TypeRegistry.register_leaves hr hfault)
    rintro ⟨_, _, _, -, -, hgrows⟩
    exact hgrows.not_alike

open Registry TypeRegistry in
theorem refused_registration_halted :
    (going.register halt).2 = some (.aliasTaken "GO".toList "Halt".toList) ∧
      (∃ kept, going.Grows halted halt kept) ∧
      (paneled.register dock ["D".toList, "dp".toList]).2 =
        some (.shortTaken "dp".toList "Dock".toList) ∧
      ∃ kept, paneled.Grows (paneled.register dock ["D".toList, "dp".toList]).1 dock kept := by
  obtain ⟨hcommands, htypes⟩ := @refused_registration Unit
  have hhalt : (going.register halt).2 = some (.aliasTaken "GO".toList "Halt".toList) := by
    decide +kernel
  have hdock : (paneled.register dock ["D".toList, "dp".toList]).2 =
      some (.shortTaken "dp".toList "Dock".toList) := by decide +kernel
  obtain ⟨-, -, hcommand⟩ := hcommands going halt _ going_registered hhalt
  obtain ⟨kept, -, -, -, -, hgrows⟩ := hcommand (by decide +kernel)
  obtain ⟨-, -, htype⟩ := htypes paneled dock _ _ (.register _ _ .empty) hdock
  obtain ⟨more, -, -, -, -, hmore⟩ := htype (by decide +kernel)
  exact ⟨hhalt, ⟨kept, hgrows⟩, hdock, more, hmore⟩

open Registry TypeRegistry in
/-- The command that was refused is found, and so is the type. -/
theorem not_alike_halted :
    (going.register halt).2.isSome = true ∧ ¬ going.Alike (going.register halt).1 ∧
      (paneled.register dock ["D".toList, "dp".toList]).2.isSome = true ∧
      ¬ paneled.Alike (paneled.register dock ["D".toList, "dp".toList]).1 := by
  refine ⟨by decide +kernel, fun h => ?_, by decide +kernel, fun h => ?_⟩
  · have hnames : (going.register halt).1.names ≠ going.names := by decide +kernel
    exact hnames h.names
  · have hlength : (paneled.register dock ["D".toList, "dp".toList]).1.all.length ≠
        paneled.all.length := by decide +kernel
    exact hlength (congrArg List.length h.all)

end CommandShell
