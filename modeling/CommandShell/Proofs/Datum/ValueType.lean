import CommandShell.Datum.ValueType

/-!
What conversions raise. A type of the shell's own says of every text that it does not take that the
text does not fit; what a foreign type raises is not known.
-/

set_option autoImplicit false

namespace CommandShell

theorem exists_of_map_eq_ok {ε α β : Type} {x : Except ε α} {f : α → β} {y : β}
    (h : x.map f = .ok y) : ∃ a, x = .ok a ∧ f a = y := by
  cases x with
  | error fault => cases h
  | ok a => exact ⟨a, rfl, Except.ok.inj h⟩

theorem error_of_map_eq_error {ε α β : Type} {x : Except ε α} {f : α → β} {e : ε}
    (h : x.map f = .error e) : x = .error e := by
  cases x with
  | error fault => exact Except.error.inj h ▸ rfl
  | ok a => cases h

def Raised.IsMisfit (raised : Raised) : Prop :=
  ∃ fault : Fault, raised = .fault fault ∧ fault.kind.isMisfit = true

theorem CoercionFault.isMisfit (f : CoercionFault) : Raised.IsMisfit f.fault := by
  cases f <;> exact ⟨_, rfl, rfl⟩

theorem Numeral.isMisfit_of_write {n : Int} {raised : Raised} (h : write n = .error raised) :
    raised.IsMisfit := by
  rw [write] at h
  split at h
  · cases h
  · exact Except.error.inj h ▸ ⟨unwritable, rfl, rfl⟩

namespace Enumeration

variable {e : Enumeration} {ms : List Member} {m : Member} {raw lowered : Text} {raised : Raised}

theorem mem_of_ofValue? (h : ofValue? lowered ms = .ok (some m)) : m ∈ ms := by
  induction ms with
  | nil => cases h
  | cons first ms ih =>
    obtain ⟨value, -, h⟩ := of_bind_eq_ok h
    split at h
    · exact Option.some.inj (Except.ok.inj h) ▸ List.mem_cons_self
    · exact List.mem_cons_of_mem first (ih h)

theorem isMisfit_of_ofValue? (h : ofValue? lowered ms = .error raised) : raised.IsMisfit := by
  induction ms with
  | nil => cases h
  | cons first ms ih =>
    rw [ofValue?] at h
    cases hvalue : first.value.print with
    | error other =>
      rw [hvalue] at h
      obtain rfl : other = raised := Except.error.inj h
      cases hkind : first.value with
      | text s =>
        rw [hkind] at hvalue
        cases hvalue
      | integer n =>
        rw [hkind] at hvalue
        exact Numeral.isMisfit_of_write hvalue
    | ok value =>
      rw [hvalue] at h
      dsimp only [bind, Except.bind] at h
      split at h
      · cases h
      · exact ih h

theorem mem_of_coerce (h : e.coerce raw = .ok m) : m ∈ e.all := by
  rw [coerce] at h
  split at h
  · rename_i hfound
    exact Except.ok.inj h ▸ List.mem_of_find?_eq_some hfound
  · obtain ⟨found, hfound, h⟩ := of_bind_eq_ok h
    split at h
    · exact Except.ok.inj h ▸ mem_of_ofValue? hfound
    · cases h

theorem isMisfit_of_coerce (h : e.coerce raw = .error raised) : raised.IsMisfit := by
  rw [coerce] at h
  split at h
  · cases h
  · cases hfound : ofValue? (Text.lower raw) e.all with
    | error other =>
      rw [hfound] at h
      exact Except.error.inj h ▸ isMisfit_of_ofValue? hfound
    | ok found =>
      rw [hfound] at h
      cases found with
      | some m => cases h
      | none => exact Except.error.inj h ▸ (CoercionFault.notMember raw e).isMisfit

end Enumeration

namespace ValueType

variable {type : ValueType} {raw : Text} {raised : Raised} {v : Datum} {vs : List Datum}

/-- The type raises nothing but failures that say that a text does not fit. -/
def OnlyMisfits (type : ValueType) : Prop :=
  ∀ raw raised, type.coerceText raw = .error raised → raised.IsMisfit

theorem onlyMisfits_of (h : ∀ f, type = .foreign f → type.OnlyMisfits) : type.OnlyMisfits := by
  intro raw raised hraised
  cases type with
  | text | any | mixed | script => cases hraised
  | mixedOptional => exact Except.error.inj hraised ▸ CoercionFault.isMisfit _
  | integer | number | boolean =>
    rw [coerceText] at hraised
    split at hraised
    all_goals cases hraised
    all_goals exact CoercionFault.isMisfit _
  | enumeration e => exact Enumeration.isMisfit_of_coerce (error_of_map_eq_error hraised)
  | foreign f => exact h f rfl raw raised hraised

mutual

theorem exists_of_coerce_eq_error {v : Datum} (h : type.coerce v = .error raised) :
    ∃ raw, type.coerceText raw = .error raised := by
  cases v with
  | text raw => exact ⟨raw, by rwa [coerce] at h⟩
  | list vs =>
    rw [coerce] at h
    exact exists_of_coerceAll_eq_error (error_of_map_eq_error h)
  | null | boolean | integer | number | member | script | moment | map | object =>
    rw [coerce] at h
    · cases h
    all_goals simp

theorem exists_of_coerceAll_eq_error {vs : List Datum} (h : type.coerceAll vs = .error raised) :
    ∃ raw, type.coerceText raw = .error raised := by
  cases vs with
  | nil =>
    rw [coerceAll] at h
    cases h
  | cons v vs =>
    rw [coerceAll] at h
    cases hv : type.coerce v with
    | error other =>
      rw [hv] at h
      exact exists_of_coerce_eq_error (Except.error.inj h ▸ hv)
    | ok first =>
      cases hvs : type.coerceAll vs with
      | error other =>
        rw [hv, hvs] at h
        exact exists_of_coerceAll_eq_error (Except.error.inj h ▸ hvs)
      | ok rest =>
        rw [hv, hvs] at h
        cases h

end

end ValueType

end CommandShell
