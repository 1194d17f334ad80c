import CommandShell.Proofs.Owner.Merge

/-!
Members that share their name with another kind, and the kind at the end of a name. With its kind
behind it such a member is found, unless a member has that very name.
-/

set_option autoImplicit false

namespace CommandShell

namespace Text

theorem length_lowerFrom (before s : Text) :
    (lowerFrom before s).length = (s.flatMap lowerChar).length := by
  induction s generalizing before with
  | nil => rfl
  | cons c s ih =>
    rw [lowerFrom, List.length_append, ih, List.flatMap_cons, List.length_append]
    split
    · rename_i hsigma
      have hc : c.toNat = 0x3a3 := beq_iff_eq.mp hsigma
      obtain rfl : c = Char.ofNat 0x3a3 := by rw [← hc, Char.ofNat_toNat]
      have hone : (lowerChar (Char.ofNat 0x3a3)).length = 1 := by decide +kernel
      rw [hone, List.length_singleton]
    · rfl

theorem length_lower_append (s t : Text) :
    (lower (s ++ t)).length = (lower s).length + (lower t).length := by
  simp only [lower, length_lowerFrom, List.flatMap_append, List.length_append]

theorem lowerFrom_append (before s t : Text) :
    ∃ front, lowerFrom before (s ++ t) = front ++ lowerFrom (s.reverse ++ before) t := by
  induction s generalizing before with
  | nil => exact ⟨[], rfl⟩
  | cons c s ih =>
    obtain ⟨front, hfront⟩ := ih (c :: before)
    rw [List.cons_append, lowerFrom, hfront, List.reverse_cons, List.append_assoc s.reverse]
    exact ⟨_, (List.append_assoc ..).symm⟩

/-- Only a sigma looks at what is around it. -/
theorem lowerFrom_of_notMem {s : Text} (h : Char.ofNat 0x3a3 ∉ s) (before : Text) :
    lowerFrom before s = s.flatMap lowerChar := by
  induction s generalizing before with
  | nil => rfl
  | cons c s ih =>
    obtain ⟨hc, hs⟩ := not_or.mp (mt List.mem_cons.mpr h)
    have hsigma : ¬ (c.toNat == 0x3a3) = true := fun he =>
      hc (by rw [← beq_iff_eq.mp he, Char.ofNat_toNat])
    rw [lowerFrom, if_neg hsigma, ih hs, List.flatMap_cons]

end Text

namespace Owner

/-- A name with a kind behind it is no name with another kind behind it. -/
theorem suffixed_append {s : Text} (hs : s ≠ []) (kind : MemberKind) :
    suffixed (s ++ kind.label) = [(kind, s)] := by
  have hpos : 0 < s.length := List.length_pos_iff.mpr hs
  obtain ⟨front, hlower⟩ : ∃ front, Text.lower (s ++ kind.label) =
      front ++ Text.lower kind.label := by
    obtain ⟨front, hfront⟩ := Text.lowerFrom_append [] s kind.label
    have hsigma : Char.ofNat 0x3a3 ∉ kind.label := by cases kind <;> decide +kernel
    refine ⟨front, ?_⟩
    rw [Text.lower, hfront, Text.lower, Text.lowerFrom_of_notMem hsigma,
      Text.lowerFrom_of_notMem hsigma]
  have hends (other : MemberKind) :
      Text.endsWith (Text.lower (s ++ kind.label)) (Text.lower other.label) =
        decide (other = kind) := by
    rw [hlower, Text.endsWith]
    by_cases hk : other = kind
    · subst hk
      simp [List.isSuffixOf_iff_suffix]
    · -- the two kinds end in different characters
      rw [decide_eq_false hk, ← Bool.not_eq_true, List.isSuffixOf_iff_suffix]
      rintro ⟨front', heq⟩
      have hproperty : (Text.lower MemberKind.property.label).getLast? = some 'y' := by
        decide +kernel
      have hevent : (Text.lower MemberKind.event.label).getLast? = some 't' := by decide +kernel
      have hlast := congrArg List.getLast? heq
      rw [List.getLast?_append, List.getLast?_append] at hlast
      revert hlast hk
      cases other <;> cases kind <;> simp [hproperty, hevent]
  have hlength : (s ++ kind.label).length = s.length + kind.label.length := List.length_append
  cases kind <;> simp [suffixed, MemberKind.all, hends, hpos]

end Owner

theorem TypeRegistry.mem_all_of_resolve {registry : TypeRegistry} {name : Text} {owner : OwnerType}
    (h : registry.resolve name = some owner) : owner ∈ registry.all := by
  have hget {key : Text} (h : registry.types.get? key = some owner) : owner ∈ registry.all := by
    obtain ⟨entry, hentry, rfl⟩ := Option.map_eq_some_iff.mp h
    exact List.mem_map_of_mem (List.mem_of_find?_eq_some hentry)
  simp only [resolve] at h
  split at h
  · rename_i found hfound
    obtain rfl := Option.some.inj h
    exact hget hfound
  · split at h
    · rename_i found hfound
      obtain rfl := Option.some.inj h
      exact (List.mem_filter.mp (hfound ▸ List.mem_singleton_self found)).1
    · obtain ⟨fullName, -, hfound⟩ := Option.bind_eq_some_iff.mp h
      exact hget hfound

namespace OwnerType

variable {owner : OwnerType} {m : Attachable}

/-- No two members of a kind have the same name, whatever their case. -/
def Distinct (owner : OwnerType) : Prop :=
  (owner.members.map fun m => (m.kind, Text.lower m.name)).Nodup

instance (owner : OwnerType) : Decidable owner.Distinct :=
  inferInstanceAs (Decidable (List.Nodup _))

def shares (owner : OwnerType) (m : Attachable) : Bool := 1 < (owner.named m.name).length

/-- The name that a member is offered by: its kind is behind it where the name alone is not
enough. -/
def offered (owner : OwnerType) (m : Attachable) : Text :=
  m.name ++ if owner.shares m then m.kind.label else []

theorem mem_named {name : Text} :
    m ∈ owner.named name ↔ m ∈ owner.members ∧ Text.lower m.name = Text.lower name := by
  simp [named]

theorem Distinct.find?_kind (h : owner.Distinct) (hm : m ∈ owner.members) :
    (owner.named m.name).find? (·.kind = m.kind) = some m := by
  obtain ⟨found, hfound⟩ : ∃ found, (owner.named m.name).find? (·.kind = m.kind) = some found :=
    Option.isSome_iff_exists.mp (List.find?_isSome.mpr ⟨m, mem_named.mpr ⟨hm, rfl⟩, by simp⟩)
  obtain ⟨hin, hname⟩ := mem_named.mp (List.mem_of_find?_eq_some hfound)
  have hkind : found.kind = m.kind := by simpa using List.find?_some hfound
  rw [hfound, List.inj_on_of_nodup_map h hin hm (by rw [hkind, hname])]

theorem named_of_not_shares (hm : m ∈ owner.members) (h : owner.shares m = false) :
    owner.named m.name = [m] := by
  have hin : m ∈ owner.named m.name := mem_named.mpr ⟨hm, rfl⟩
  have hle : (owner.named m.name).length ≤ 1 := by simpa [shares] using h
  match hnamed : owner.named m.name, hin, hle with
  | [found], hin, _ => rw [List.mem_singleton.mp hin]

end OwnerType

namespace Owner

variable {owner : OwnerType} {m : Attachable}

theorem isName_offered (h : isName m.name = true) : isName (owner.offered m) = true := by
  have hlabel : m.kind.label.all Text.isWord = true := by cases m.kind <;> decide +kernel
  unfold OwnerType.offered
  cases hname : m.name with
  | nil =>
    rw [hname] at h
    cases h
  | cons c rest =>
    rw [hname, isName, Bool.and_eq_true] at h
    rw [List.cons_append, isName, h.1, Bool.true_and, List.all_append, h.2, Bool.true_and]
    split
    · exact hlabel
    · rfl

/-- The name that a member is offered by is that of the member, or, where its kind had to be put
behind it, not when another member has just this name. -/
theorem findMember_offered (hd : owner.Distinct) (hm : m ∈ owner.members)
    (hname : isName m.name = true) :
    (findMember owner (owner.offered m) none).1 = some m ↔
      (owner.shares m = true → owner.named (m.name ++ m.kind.label) = []) := by
  have hne : m.name ≠ [] := fun hnil => by
    rw [hnil] at hname
    cases hname
  cases hs : owner.shares m with
  | false =>
    have hnamed := OwnerType.named_of_not_shares hm hs
    simp [OwnerType.offered, hs, findMember, hnamed]
  | true =>
    rw [OwnerType.offered, if_pos hs]
    have hother : ∀ found ∈ owner.named (m.name ++ m.kind.label), found ≠ m := by
      rintro found hfound rfl
      have hlower := congrArg List.length (OwnerType.mem_named.mp hfound).2
      have hpos : (Text.lower found.kind.label).length ≠ 0 := by
        cases found.kind <;> decide +kernel
      rw [Text.length_lower_append] at hlower
      omega
    unfold findMember
    split
    · rename_i found hnamed
      have := hother found (by simp [hnamed])
      simp [hnamed, this]
    · rename_i hnamed
      simp [hnamed, suffixed_append hne, hd.find?_kind hm]
    · rename_i hnot hempty
      exact iff_of_false (by simp) fun h => hempty (h rfl)

end Owner

end CommandShell
