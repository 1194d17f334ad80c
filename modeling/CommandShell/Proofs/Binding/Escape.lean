import CommandShell.Proofs.Binding.Claims
import CommandShell.Proofs.Binding.Keywords
import CommandShell.Proofs.Datum.ValueType
import CommandShell.Proofs.Owner.Kind

/-!
What escapes from a binding and from the keywords of a call. Nothing does but what a conversion
throws: one that fails with a kind that is not caught, or one whose failure has no text.
-/

set_option autoImplicit false

namespace CommandShell

/-- What leaves those who catch such kinds and make a text of what they catch. -/
def Raised.Leaves (isCaught : FaultKind → Bool) (thrown raised : Raised) : Prop :=
  if isCaught thrown.kind then thrown.told = .error raised else thrown = raised

/-- A conversion of the type throws what leaves those who catch such kinds. -/
def ValueType.Throws (isCaught : FaultKind → Bool) (type : ValueType) (raised : Raised) : Prop :=
  ∃ raw thrown, type.coerceText raw = .error thrown ∧ thrown.Leaves isCaught raised

theorem not_leaves_of_isMisfit {isCaught : FaultKind → Bool} {thrown raised : Raised}
    (hcaught : ∀ kind : FaultKind, kind.isMisfit = true → isCaught kind = true)
    (h : thrown.IsMisfit) : ¬ thrown.Leaves isCaught raised := by
  obtain ⟨fault, rfl, hfault⟩ := h
  have hkind : isCaught (Raised.fault fault).kind = true := hcaught _ hfault
  rw [Raised.Leaves, if_pos hkind]
  exact nofun

theorem ValueType.OnlyMisfits.not_throws {type : ValueType} (h : type.OnlyMisfits)
    {isCaught : FaultKind → Bool}
    (hcaught : ∀ kind : FaultKind, kind.isMisfit = true → isCaught kind = true)
    (raised : Raised) : ¬ type.Throws isCaught raised := by
  rintro ⟨raw, thrown, hthrown, hleaves⟩
  exact not_leaves_of_isMisfit hcaught (h raw thrown hthrown) hleaves

theorem Diagnostic.Cause.tell_eq_escaped {cause : Fault → Cause} {thrown raised : Raised}
    (hcause : ∀ fault, cause fault ≠ .escaped raised) :
    Cause.tell cause thrown = .escaped raised ↔ thrown.told = .error raised := by
  rw [Cause.tell]
  cases thrown.told with
  | ok fault => simp [hcause fault]
  | error inner => simp

namespace Diagnostic

variable {raised : Raised} {d : Diagnostic} {noted : List Diagnostic}

theorem raised?_eq_some : d.raised? = some raised ↔ d.cause = .escaped raised := by
  unfold raised?
  split
  · rename_i other hcause
    rw [hcause, Option.some.injEq, Cause.escaped.injEq]
  · rename_i hcause
    exact iff_of_false nofun (hcause raised)

theorem exists_of_outcome_eq_error {α : Type} {result : α}
    (h : outcome noted result = .error raised) : ∃ d ∈ noted, d.raised? = some raised := by
  unfold outcome at h
  split at h
  · rename_i first hfirst
    obtain rfl := Except.error.inj h
    exact List.exists_of_findSome?_eq_some hfirst
  · cases h

end Diagnostic

namespace Owner

variable {types : Option TypeRegistry} {raised : Raised} {d : Diagnostic}

def isNoted (kind : FaultKind) : Bool := kind.isMisfit || kind.isA .key

theorem unconverted_eq_escaped {owner : OwnerType} {member : Attachable} {raw : Text}
    {thrown : Raised} :
    unconverted owner member raw thrown = .escaped raised ↔ thrown.Leaves isNoted raised := by
  rw [unconverted, Raised.Leaves, isNoted]
  split
  · refine Diagnostic.Cause.tell_eq_escaped fun fault h => ?_
    cases h
  · exact Diagnostic.Cause.escaped.injEq _ _ ▸ Iff.rfl

theorem findMember_mem {owner : OwnerType} {member : Attachable} {name : Text}
    {offset : Option Nat} {found : List Diagnostic}
    (h : findMember owner name offset = (some member, found)) : member ∈ owner.members := by
  have hnamed {name : Text} {m : Attachable} (hm : m ∈ owner.named name) : m ∈ owner.members :=
    List.mem_of_mem_filter hm
  unfold findMember at h
  split at h
  · rename_i m hm
    obtain rfl : m = member := Option.some.inj (Prod.mk.inj h).1
    exact hnamed (hm ▸ List.mem_singleton_self m)
  · obtain ⟨⟨kind, base⟩, -, hkind⟩ := List.exists_of_findSome?_eq_some (Prod.mk.inj h).1
    exact hnamed (List.mem_of_find?_eq_some hkind)
  · cases h

def memberTypes (types : Option TypeRegistry) : List ValueType :=
  (types.elim [] (·.all)).flatMap fun owner => owner.members.map (·.type)

theorem findMember_raised? (owner : OwnerType) (name : Text) (offset : Option Nat) :
    ∀ d ∈ (findMember owner name offset).2, d.raised? = none := by
  unfold findMember
  split
  · simp
  · simp
  · exact fun d hd => List.mem_singleton.mp hd ▸ rfl

theorem throws_of_convert {owner : OwnerType} {member : Attachable} {raw : Option Text}
    {offset : Nat} (hd : d ∈ (convert owner member raw offset).2)
    (hraised : d.raised? = some raised) : member.type.Throws isNoted raised := by
  rcases convert_noted owner member raw offset with hnone | ⟨v, thrown, -, hthrown, hone⟩
  · rw [hnone] at hd
    cases hd
  · rw [hone] at hd
    obtain rfl := List.mem_singleton.mp hd
    have hcause : unconverted owner member v thrown = .escaped raised :=
      Diagnostic.raised?_eq_some.mp hraised
    exact ⟨v, thrown, hthrown, unconverted_eq_escaped.mp hcause⟩

theorem throws_of_merge {e : Element} {adjacent value : Option Element}
    (hd : d ∈ (merge types e adjacent value).2) (hraised : d.raised? = some raised) :
    ∃ type ∈ memberTypes types, type.Throws isNoted raised := by
  revert hd
  fun_cases merge types e adjacent value with
  | case1 | case2 | case3 | case6 => exact fun hd => absurd hd List.not_mem_nil
  | case4 types a _ ownerName memberName inline _ owner _ found hfind =>
    intro hd
    have hnone := findMember_raised? owner memberName (some e.start) d (by rw [hfind]; exact hd)
    cases hraised.symm.trans hnone
  | case5 types a _ ownerName memberName inline _ owner hresolve member found hfind raw consumed
      hraw offset converted failed hconvert =>
    intro hd
    rcases List.mem_append.mp hd with hd | hd
    · have hnone := findMember_raised? owner memberName (some e.start) d (by rw [hfind]; exact hd)
      cases hraised.symm.trans hnone
    · have hconverted : d ∈ (convert owner member raw offset).2 := by
        rw [hconvert]
        exact hd
      exact ⟨member.type, List.mem_flatMap.mpr ⟨owner, TypeRegistry.mem_all_of_resolve hresolve,
        List.mem_map_of_mem (findMember_mem hfind)⟩, throws_of_convert hconverted hraised⟩

end Owner

namespace Binding

variable {types : Option TypeRegistry} {raised : Raised} {d : Diagnostic}

theorem misnamed_raised? (context : Context) (pass : Pass) (typed : Text) (found : List Parameter)
    (offset : Nat) : ∀ d ∈ misnamed context pass typed found offset, d.raised? = none := by
  unfold misnamed
  dsimp only
  split
  · exact fun d hd => List.mem_singleton.mp hd ▸ rfl
  · split
    · simp
    · split <;> exact fun d hd => List.mem_singleton.mp hd ▸ rfl

theorem Reads.throws {context : Context} {pass : Pass} {e : Element} {rest : List Element}
    {r : Reading} {consumed : Nat} {noted : List Diagnostic}
    (h : Reads context pass e rest r consumed noted) (hd : d ∈ noted)
    (hraised : d.raised? = some raised) :
    ∃ type ∈ Owner.memberTypes context.types, type.Throws Owner.isNoted raised := by
  have hmisnamed {found : List Parameter} (hd : d ∈ misnamed context pass e.text found e.start) :
      False := by
    cases hraised.symm.trans (misnamed_raised? _ _ _ _ _ d hd)
  cases h with
  | declared => cases hd
  | member _ hmerge => exact Owner.throws_of_merge (by rw [hmerge]; exact hd) hraised
  | unknown _ hmerge _ =>
    rcases List.mem_append.mp hd with hd | hd
    · exact Owner.throws_of_merge (by rw [hmerge]; exact hd) hraised
    · exact (hmisnamed hd).elim
  | ambiguous => exact (hmisnamed hd).elim

/-- What escapes from a binding is what a conversion to the type of an attached member throws. -/
theorem throws_of_noted {elements : List Element} {cursor : Int} {declared : List Parameter}
    (hd : d ∈ (bind elements cursor declared types).errors) (hraised : d.raised? = some raised) :
    ∃ type ∈ Owner.memberTypes types, type.Throws Owner.isNoted raised := by
  obtain ⟨a, hrun⟩ := exists_anchor elements cursor declared types
  rw [bind, hrun] at hd
  rcases Pass.exists_reads_of_noted declared types 1 (elements.drop 1) _ d hd with
    hstart | ⟨before, e, behind, r, consumed, noted, -, hr, hnoted⟩
  · cases hstart
  · exact hr.throws hnoted hraised

theorem throws_of_bind {elements : List Element} {cursor : Int} {declared : List Parameter}
    (h : (bind elements cursor declared types).outcome = .error raised) :
    ∃ type ∈ Owner.memberTypes types, type.Throws Owner.isNoted raised := by
  obtain ⟨d, hd, hraised⟩ := Diagnostic.exists_of_outcome_eq_error h
  exact throws_of_noted hd hraised

theorem exists_leaves_of_ofConversion {parameter : Text} {thrown : Raised}
    (h : (InvocationFault.ofConversion parameter thrown).raised.told = .error raised) :
    ∃ left, thrown.Leaves FaultKind.isMisfit left ∧ left.told = .error raised := by
  rw [InvocationFault.ofConversion] at h
  split at h
  · rename_i hmisfit
    split at h
    · cases h
    · rename_i inner htold
      exact ⟨inner, by rwa [Raised.Leaves, if_pos hmisfit], h⟩
  · rename_i hmisfit
    exact ⟨thrown, by rw [Raised.Leaves, if_neg hmisfit], h⟩

section Keywords

variable {σ : Type} {c : Command σ} {b : Binding} {vars : Variables} {fault : InvocationFault}

theorem exists_conversion_of_keywordsFrom {given : Entries Text Datum}
    {arguments : List (Text × Argument)}
    (h : keywordsFrom c b vars given arguments = .error fault) :
    ∃ p ∈ c.parameters, ∃ value thrown, p.type.coerce value = .error thrown ∧
      fault = .ofConversion p.name thrown := by
  induction arguments generalizing given with
  | nil => cases h
  | cons entry rest ih =>
    obtain ⟨name, argument⟩ := entry
    cases hattached : b.attached.get? name with
    | some m =>
      simp only [keywordsFrom, hattached] at h
      exact ih h
    | none =>
      cases hp : c.parameter? name with
      | none =>
        simp only [keywordsFrom, hattached, hp] at h
        exact ih h
      | some p =>
        cases hd : p.type.coerce (argument.resolve vars) with
        | ok d =>
          simp only [keywordsFrom, hattached, hp, hd] at h
          exact ih h
        | error thrown =>
          simp only [keywordsFrom, hattached, hp, hd] at h
          exact ⟨p, List.mem_of_find?_eq_some hp, _, thrown, hd, (Except.error.inj h).symm⟩

/-- What is wrong with the keywords of a call can be told, unless a conversion to the type of a
declared parameter throws what cannot. -/
theorem throws_of_keywords (h : b.keywords c vars = .error fault)
    (hraised : fault.raised.told = .error raised) :
    ∃ p ∈ c.parameters, ∃ left, p.type.Throws FaultKind.isMisfit left ∧
      left.told = .error raised := by
  rw [keywords] at h
  split at h
  · obtain rfl := Except.error.inj h
    cases hraised
  · split at h
    · obtain rfl := Except.error.inj h
      cases hraised
    · obtain ⟨p, hp, value, thrown, hthrown, rfl⟩ := exists_conversion_of_keywordsFrom h
      obtain ⟨raw, hraw⟩ := ValueType.exists_of_coerce_eq_error hthrown
      obtain ⟨left, hleaves, htold⟩ := exists_leaves_of_ofConversion hraised
      exact ⟨p, hp, left, ⟨raw, thrown, hraw, hleaves⟩, htold⟩

end Keywords

def invalidOperation : Raised :=
  .fault ⟨.other "InvalidOperation".toList, "[<class 'decimal.ConversionSyntax'>]".toList⟩

/-- Decimal fractions without a sign or a point, for which nothing but digits is read. -/
def decimal : ValueType := .foreign {
  name := "Decimal".toList
  identity := 0
  convert := fun raw =>
    if raw.all Char.isDigit && !raw.isEmpty then
      .ok (.object ⟨"Decimal".toList, 0, true, .ok raw,
        .ok ("Decimal('".toList ++ raw ++ "')".toList)⟩)
    else .error invalidOperation }

def sized : TypeRegistry :=
  (TypeRegistry.empty.register
    (OwnerType.make "Grid".toList [] [("Width".toList, decimal)] []) []).1

example :
    (match (bind (Element.ofTokens (Token.scan "Cmd -Grid.Width abc".toList)) (-1) []
        (some sized)).outcome with
      | .error raised => decide (raised = invalidOperation)
      | .ok _ => false) = true := by
  decide +kernel

end Binding

end CommandShell
