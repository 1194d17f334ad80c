import CommandShell.Proofs.Binding.Partition
import CommandShell.Proofs.Owner.Merge

/-!
A member spelled in full is bound as that member wherever no declared parameter begins like its
owner, however many points the owner's name has and whatever the value is.
-/

set_option autoImplicit false

namespace CommandShell

namespace Parameter

variable {p : Parameter} {typed : Text} {candidates : List Parameter}

theorem isAbbreviatedBy_of_isNamed (h : p.isNamed typed = true) :
    p.isAbbreviatedBy typed = true := by
  obtain ⟨name, hname, hlower⟩ := List.any_eq_true.mp h
  refine List.any_eq_true.mpr ⟨name, hname, ?_⟩
  rw [of_decide_eq_true hlower]
  exact List.isPrefixOf_iff_prefix.mpr List.prefix_rfl

theorem isAbbreviatedBy_of_mem_matching (h : p ∈ matching typed candidates) :
    p.isAbbreviatedBy typed = true := by
  unfold matching at h
  split at h
  · exact (List.mem_filter.mp h).2
  · exact isAbbreviatedBy_of_isNamed (List.mem_filter.mp h).2

end Parameter

namespace Binding

variable {declared : List Parameter} {types : Option TypeRegistry} {elements : List Element}

theorem found_eq_nil {typed : Text} (h : ∀ p ∈ declared, p.isAbbreviatedBy typed = false) :
    (Pass.start declared).found typed = [] := by
  refine List.eq_nil_iff_forall_not_mem.mpr fun p hp => ?_
  obtain ⟨entry, hentry, rfl⟩ := List.mem_map.mp (Pass.found_mem hp)
  obtain ⟨q, hq, rfl⟩ := List.mem_map.mp (Entries.mem_of_mem_ofList hentry)
  rw [Pass.found] at hp
  split at hp
  · cases hp
  · exact absurd (Parameter.isAbbreviatedBy_of_mem_matching hp) (by simp [h q hq])

theorem bind_of_values_nil (h : (gathered declared types elements).values = []) (cursor : Int) :
    let b := bind elements cursor declared types
    let pass := gathered declared types elements
    b.named = pass.named ∧ b.unknown = pass.unknown ∧ b.positional = [] ∧
      b.errors = pass.errors ∧ b.attached = pass.attached ∧
      b.available = pass.available.map (·.2) := by
  intro b pass
  obtain ⟨a, hrun⟩ := exists_anchor elements cursor declared types
  simp only [b, pass, bind, hrun, Pass.finish, h, List.zip_nil_right, List.foldl_nil,
    List.length_nil, List.drop_nil, List.map_nil, and_self]

section

open Owner Quoting

variable {types : TypeRegistry} {owner : OwnerType} {member : Attachable} {first sep : Text}
  {more : List Text}

theorem resolve_fullName (h : types.types.get? (Text.lower owner.fullName) = some owner) :
    types.resolve owner.fullName = some owner := by
  simp only [TypeRegistry.resolve, h]

/-- Fractions that are whole numbers, as a foreign type reads them. -/
def fraction : Foreign where
  name := "Fraction".toList
  identity := 0
  convert raw :=
    match Numeral.read raw with
    | .ok n => do
      let written ← Numeral.write n
      pure (.object ⟨"Fraction".toList, n.toNat, n ≠ 0, .ok written,
        .ok ("Fraction(".toList ++ written ++ ", 1)".toList)⟩)
    | .error _ =>
      .error (.fault ⟨.value, "Invalid literal for Fraction: ".toList ++ Text.quoted raw⟩)

theorem fraction_onlyMisfits : (ValueType.foreign fraction).OnlyMisfits := by
  intro raw raised h
  change fraction.convert raw = .error raised at h
  unfold fraction at h
  dsimp only at h
  split at h
  · rename_i n hn
    cases hwritten : Numeral.write n with
    | ok written =>
      rw [hwritten] at h
      cases h
    | error other =>
      rw [hwritten] at h
      exact Numeral.isMisfit_of_write (Except.error.inj h ▸ hwritten)
  · exact Except.error.inj h ▸ ⟨_, rfl, rfl⟩

def divided : OwnerType :=
  .make "Grid".toList "Shapes.Parts".toList [("Part".toList, .foreign fraction)] []

end

end Binding

end CommandShell
