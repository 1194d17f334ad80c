import CommandShell.Command.Registry
import CommandShell.Proofs.Entries

/-!
What a registry of commands keeps, whatever is registered and whatever is refused. A registration
adds one name after another, each of them free; so names and other names stay apart, every other
name stands for a command that is there, and what a name once stood for it stands for ever after.
-/

set_option autoImplicit false

namespace CommandShell

def Command.IsNamed {σ : Type} (c : Command σ) (name : Text) : Prop :=
  Text.lower c.name = Text.lower name ∨ ∃ other ∈ c.aliases, Text.lower other = Text.lower name

namespace Registry

variable {σ : Type} {r s : Registry σ} {c : Command σ} {name : Text}

/-- The command of that name, if there is one. There is no answer when another name stands for a
command that is not there. -/
def lookup? (r : Registry σ) (name : Text) : Option (Option (Command σ)) :=
  let key := Text.lower name
  match r.commands.get? key with
  | some c => some (some c)
  | none =>
    match r.aliases.get? key with
    | none => some none
    | some command => (r.commands.get? command).map some

/-- The registries that registration leads to. -/
inductive Registered : Registry σ → Prop where
  | empty : Registered empty
  | register {r : Registry σ} (c : Command σ) : Registered r → Registered (r.register c).1
  | setDescription {r : Registry σ} (category description : Text) :
      Registered r → Registered (r.setDescription category description)

/-- The registries that a registry becomes. -/
inductive Later (r : Registry σ) : Registry σ → Prop where
  | refl : Later r r
  | register {s : Registry σ} (c : Command σ) : Later r s → Later r (s.register c).1
  | setDescription {s : Registry σ} (category description : Text) :
      Later r s → Later r (s.setDescription category description)

theorem get?_eq_or (r : Registry σ) (name : Text) :
    r.get? name = (r.commands.get? (Text.lower name)).or
      ((r.aliases.get? (Text.lower name)).bind fun command => r.commands.get? command) := by
  rw [get?]
  cases r.commands.get? (Text.lower name) <;> rfl

/-! ## One name after another -/

/-- A registry and the same with one more name, which was free: the name of a new command, or
another name of a command that is there. -/
inductive Adds : Registry σ → Registry σ → Prop where
  | command {r : Registry σ} {c : Command σ} : r.isTaken (Text.lower c.name) = false →
      Adds r { r with commands := r.commands.set (Text.lower c.name) c }
  | other {r : Registry σ} {c : Command σ} {other : Text} :
      r.commands.get? (Text.lower c.name) = some c → other ∈ c.aliases →
      r.isTaken (Text.lower other) = false →
      Adds r { r with
        aliases := r.aliases.set (Text.lower other) (Text.lower c.name)
        spelled := r.spelled.set (Text.lower other) other }

theorem isTaken_eq_false {key : Text} : r.isTaken key = false ↔
    key ∉ r.commands.map (·.1) ∧ key ∉ r.aliases.map (·.1) := by
  rw [isTaken, Bool.or_eq_false_iff, ← Bool.not_eq_true, ← Bool.not_eq_true, Entries.has_eq_true,
    Entries.has_eq_true]

theorem addAliases_adds (hc : r.commands.get? (Text.lower c.name) = some c) {others : List Text}
    (hothers : ∀ other ∈ others, other ∈ c.aliases) :
    Relation.ReflTransGen Adds r (r.addAliases c.name others).1 := by
  induction others generalizing r with
  | nil => exact .refl
  | cons other rest ih =>
    obtain ⟨hother, hrest⟩ := List.forall_mem_cons.mp hothers
    rw [addAliases]
    split
    · exact .refl
    · rename_i hfree
      exact .head (.other hc hother (Bool.eq_false_iff.mpr hfree)) (ih hc hrest)

theorem register_adds (r : Registry σ) (c : Command σ) :
    Relation.ReflTransGen Adds r (r.register c).1 := by
  rw [register]
  split
  · exact .refl
  · rename_i hfree
    exact .head (.command (Bool.eq_false_iff.mpr hfree))
      (addAliases_adds (Entries.get?_set_self ..) fun _ hother => hother)

/-- What holds of the empty registry and stays when a name is added holds of every registry. -/
theorem Registered.of_adds (P : Registry σ → Prop) (h : r.Registered)
    (hempty : P Registry.empty)
    (hadds : ∀ {r s : Registry σ}, r.Adds s → P r → P s)
    (hdescribed : ∀ {r : Registry σ} (category description : Text), P r →
      P (r.setDescription category description)) : P r := by
  induction h with
  | empty => exact hempty
  | register c _ ih => exact (register_adds _ c).rec ih fun _ hstep ih => hadds hstep ih
  | setDescription category description _ ih => exact hdescribed category description ih

/-! ## What names stand for -/

def Closed (r : Registry σ) : Prop :=
  ∀ entry ∈ r.aliases, entry.2 ∈ r.commands.map (·.1)

theorem Registered.closed (h : r.Registered) : r.Closed := by
  refine h.of_adds Closed (fun _ hentry => nomatch hentry) (fun {r s} hadds ih => ?_)
    fun _ _ ih => ih
  cases hadds with
  | command _ => exact fun entry hentry => Entries.mem_keys_set.mpr (.inr (ih entry hentry))
  | other hc _ _ =>
    intro entry hentry
    rcases Entries.eq_or_mem_of_mem_set hentry with rfl | hentry
    · exact Entries.isSome_get?.mp (Option.isSome_of_eq_some hc)
    · exact ih entry hentry

theorem Closed.lookup?_eq (h : r.Closed) (name : Text) : r.lookup? name = some (r.get? name) := by
  rw [lookup?, get?]
  cases r.commands.get? (Text.lower name) with
  | some c => rfl
  | none =>
    cases halias : r.aliases.get? (Text.lower name) with
    | none => rfl
    | some command =>
      have hthere := Entries.isSome_get?.mpr (h _ (Entries.mem_of_get? halias))
      obtain ⟨c, hc⟩ := Option.isSome_iff_exists.mp hthere
      simp only [Option.bind_some, hc, Option.map_some]

structure Keyed (r : Registry σ) : Prop where
  names : ∀ entry ∈ r.commands, Text.lower entry.2.name = entry.1
  others : ∀ entry ∈ r.aliases, ∃ c, r.commands.get? entry.2 = some c ∧
    ∃ other ∈ c.aliases, Text.lower other = entry.1

theorem Registered.keyed (h : r.Registered) : r.Keyed := by
  refine h.of_adds Keyed ⟨nofun, nofun⟩ (fun {r s} hadds ih => ?_)
    fun _ _ ih => ⟨ih.names, ih.others⟩
  cases hadds with
  | @command c hfree =>
    constructor
    · intro entry hentry
      rcases Entries.eq_or_mem_of_mem_set hentry with rfl | hentry
      · rfl
      · exact ih.names entry hentry
    · intro entry hentry
      obtain ⟨d, hd, hothers⟩ := ih.others entry hentry
      have hne := Entries.ne_of_get? hd (isTaken_eq_false.mp hfree).1
      exact ⟨d, (Entries.get?_set_ne r.commands c hne).trans hd, hothers⟩
  | @other c other hc hother _ =>
    refine ⟨ih.names, fun entry hentry => ?_⟩
    rcases Entries.eq_or_mem_of_mem_set hentry with rfl | hentry
    · exact ⟨c, hc, other, hother, rfl⟩
    · exact ih.others entry hentry

theorem Keyed.get?_isNamed (h : r.Keyed) (hc : r.get? name = some c) :
    c ∈ r.all ∧ c.IsNamed name := by
  rw [get?] at hc
  split at hc
  · rename_i d hd
    obtain rfl := Option.some.inj hc
    have hmem := Entries.mem_of_get? hd
    exact ⟨List.mem_map_of_mem hmem, .inl (h.names _ hmem)⟩
  · obtain ⟨key, hkey, hc⟩ := Option.bind_eq_some_iff.mp hc
    obtain ⟨d, hd, other, hother, hname⟩ := h.others _ (Entries.mem_of_get? hkey)
    obtain rfl := Option.some.inj (hd.symm.trans hc)
    exact ⟨List.mem_map_of_mem (Entries.mem_of_get? hd), .inr ⟨other, hother, hname⟩⟩

def Apart (r : Registry σ) : Prop :=
  ∀ key ∈ r.commands.map (·.1), key ∉ r.aliases.map (·.1)

theorem Registered.apart (h : r.Registered) : r.Apart := by
  refine h.of_adds Apart (fun _ hkey => nomatch hkey) (fun {r s} hadds ih => ?_) fun _ _ ih => ih
  cases hadds with
  | command hfree =>
    intro key hkey
    rcases Entries.mem_keys_set.mp hkey with rfl | hkey
    · exact (isTaken_eq_false.mp hfree).2
    · exact ih key hkey
  | other _ _ hfree =>
    intro key hkey hother
    rcases Entries.mem_keys_set.mp hother with rfl | hother
    · exact (isTaken_eq_false.mp hfree).1 hkey
    · exact ih key hkey hother

/-- Every other name is kept under the key that it is looked up by. -/
def Spelled (r : Registry σ) : Prop :=
  ∀ entry ∈ r.spelled, entry.1 = Text.lower entry.2 ∧ entry.1 ∈ r.aliases.map (·.1)

theorem Registered.spelled (h : r.Registered) : r.Spelled := by
  refine h.of_adds Spelled (fun _ hentry => nomatch hentry) (fun {r s} hadds ih => ?_)
    fun _ _ ih => ih
  cases hadds with
  | command _ => exact ih
  | other _ _ _ =>
    intro entry hentry
    rcases Entries.eq_or_mem_of_mem_set hentry with rfl | hentry
    · exact ⟨rfl, Entries.mem_keys_set.mpr (.inl rfl)⟩
    · exact (ih entry hentry).imp_right fun hkey => Entries.mem_keys_set.mpr (.inr hkey)

theorem Registered.keys_spelled (h : r.Registered) :
    r.spelled.map (·.1) = r.aliases.map (·.1) := by
  refine h.of_adds (fun r => r.spelled.map (·.1) = r.aliases.map (·.1)) rfl
    (fun {r s} hadds ih => ?_) fun _ _ ih => ih
  cases hadds with
  | command _ => exact ih
  | @other c other _ _ hfree =>
    have hnew := (isTaken_eq_false.mp hfree).2
    rw [Entries.set_of_notMem _ hnew, Entries.set_of_notMem _ (ih ▸ hnew), List.map_append, ih,
      List.map_append]
    rfl

theorem Registered.isSome_get? (h : r.Registered) (hname : name ∈ r.names) :
    (r.get? name).isSome = true := by
  rw [get?]
  rcases List.mem_append.mp hname with hname | hname
  · obtain ⟨c, hc, rfl⟩ := List.mem_map.mp hname
    obtain ⟨entry, hentry, rfl⟩ := List.mem_map.mp hc
    have hkey : Text.lower entry.2.name ∈ r.commands.map (·.1) := by
      rw [h.keyed.names entry hentry]
      exact List.mem_map_of_mem hentry
    obtain ⟨c, hc⟩ := Option.isSome_iff_exists.mp (Entries.isSome_get?.mpr hkey)
    rw [hc]
    rfl
  · obtain ⟨entry, hentry, rfl⟩ := List.mem_map.mp hname
    obtain ⟨hlower, hkey⟩ := h.spelled entry hentry
    rw [hlower] at hkey
    obtain ⟨command, hcommand⟩ := Option.isSome_iff_exists.mp (Entries.isSome_get?.mpr hkey)
    have hthere := Entries.isSome_get?.mpr (h.closed _ (Entries.mem_of_get? hcommand))
    split
    · rfl
    · rw [hcommand, Option.bind_some]
      exact hthere

/-! ## What stays -/

theorem Adds.get? (h : r.Adds s) (hc : r.get? name = some c) : s.get? name = some c := by
  simp only [Registry.get?] at hc ⊢
  cases h with
  | command hfree =>
    obtain ⟨hcommands, haliases⟩ := isTaken_eq_false.mp hfree
    dsimp only
    split at hc
    · rename_i d hd
      rw [Entries.get?_set_ne _ _ (Entries.ne_of_get? hd hcommands), hd]
      exact hc
    · rename_i hnone
      obtain ⟨command, hcommand, hc⟩ := Option.bind_eq_some_iff.mp hc
      have hname := Entries.ne_of_get? hcommand haliases
      rw [Entries.get?_set_ne _ _ hname, hnone, hcommand, Option.bind_some,
        Entries.get?_set_ne _ _ (Entries.ne_of_get? hc hcommands), hc]
  | other _ _ hfree =>
    dsimp only
    split at hc
    · exact hc
    · obtain ⟨command, hcommand, hc⟩ := Option.bind_eq_some_iff.mp hc
      have hname := Entries.ne_of_get? hcommand (isTaken_eq_false.mp hfree).2
      rw [Entries.get?_set_ne _ _ hname, hcommand, Option.bind_some, hc]

theorem Later.get? (h : r.Later s) (hc : r.get? name = some c) : s.get? name = some c := by
  induction h with
  | refl => exact hc
  | register d _ ih => exact (register_adds _ d).rec ih fun _ hstep ih => hstep.get? ih
  | setDescription _ _ _ ih => exact ih

/-- In every registry that registrations lead to, those that were refused included, no key is a name
of a command and another name as well; every other name stands for a command that is there and is
kept as it was given; no look-up fails; every listed name stands for a command that has it; and what
a name stands for it stands for in all that the registry becomes. -/
theorem registered_lookups (h : r.Registered) :
    (∀ key, ¬ (r.commands.has key = true ∧ r.aliases.has key = true)) ∧
    (∀ key command, r.aliases.get? key = some command →
      r.commands.has command = true ∧
        ∃ other, r.spelled.get? key = some other ∧ Text.lower other = key) ∧
    (∀ name, r.lookup? name = some (r.get? name)) ∧
    (∀ name ∈ r.names, ∃ c ∈ r.all, c.IsNamed name ∧ r.lookup? name = some (some c)) ∧
    ∀ s, r.Later s → ∀ name c, r.get? name = some c → s.get? name = some c := by
  refine ⟨?_, ?_, h.closed.lookup?_eq, ?_, fun s hs name c hc => hs.get? hc⟩
  · rintro key ⟨hcommand, hother⟩
    exact h.apart key (Entries.has_eq_true.mp hcommand) (Entries.has_eq_true.mp hother)
  · intro key command hcommand
    have hentry := Entries.mem_of_get? hcommand
    refine ⟨Entries.has_eq_true.mpr (h.closed _ hentry), ?_⟩
    have hkey : key ∈ r.spelled.map (·.1) := h.keys_spelled ▸ List.mem_map_of_mem hentry
    obtain ⟨other, hother⟩ := Option.isSome_iff_exists.mp (Entries.isSome_get?.mpr hkey)
    exact ⟨other, hother, (h.spelled _ (Entries.mem_of_get? hother)).1.symm⟩
  · intro name hname
    obtain ⟨c, hc⟩ := Option.isSome_iff_exists.mp (h.isSome_get? hname)
    obtain ⟨hall, hnamed⟩ := h.keyed.get?_isNamed hc
    exact ⟨c, hall, hnamed, by rw [h.closed.lookup?_eq, hc]⟩

def idle (name : Text) (aliases : List Text) : Command Unit where
  name := name
  description := []
  example? := []
  action := ⟨false, fun _ state => (.value .null, state)⟩
  parameters := []
  origin := []
  category := Command.general
  completers := []
  aliases := aliases

def going : Registry Unit := (empty.register (idle "Go".toList ["g".toList])).1

theorem going_registered : going.Registered := .register _ .empty

def halt : Command Unit := idle "Halt".toList ["h".toList, "GO".toList, "x".toList]

def halted : Registry Unit := (going.register halt).1

theorem halted_registered : halted.Registered := .register _ going_registered

theorem registered_lookups_halted :
    halted.names = ["Go".toList, "Halt".toList, "g".toList, "h".toList] ∧
      halted.aliases.get? "h".toList = some "halt".toList ∧
      halted.commands.has "halt".toList = true ∧ halted.lookup? "X".toList = some none ∧
      ∃ c ∈ halted.all, c.IsNamed "h".toList ∧ halted.lookup? "h".toList = some (some c) ∧
        (halted.register (idle "h".toList [])).1.get? "h".toList = some c := by
  obtain ⟨-, haliases, hlookup, hnames, hlater⟩ := registered_lookups halted_registered
  have hlisted : halted.names = ["Go".toList, "Halt".toList, "g".toList, "h".toList] := by
    decide +kernel
  have hkey : halted.aliases.get? "h".toList = some "halt".toList := by decide +kernel
  have hnone : (halted.get? "X".toList).isNone = true := by decide +kernel
  obtain ⟨c, hc, hnamed, hfound⟩ := hnames "h".toList (by rw [hlisted]; decide)
  have hget := Option.some.inj ((hlookup _).symm.trans hfound)
  refine ⟨hlisted, hkey, (haliases _ _ hkey).1, ?_, c, hc, hnamed, hfound,
    hlater _ (.register _ .refl) _ _ hget⟩
  rw [hlookup, Option.isNone_iff_eq_none.mp hnone]

end Registry

end CommandShell
