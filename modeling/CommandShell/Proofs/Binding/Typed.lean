import CommandShell.Proofs.Binding.Keywords
import CommandShell.Proofs.Datum.ValueType
import CommandShell.Proofs.Entries

/-!
The types of the values that a command is called with. Conversion reads texts and leaves everything
else as it is, so that a value has the declared type unless it was a truth value or came from a
variable of another type.
-/

set_option autoImplicit false

namespace CommandShell

theorem Enumeration.type_of_coerce {e : Enumeration} {raw : Text} {m : Member}
    (h : e.coerce raw = .ok m) : m.type = e := by
  obtain ⟨named, -, rfl⟩ := List.mem_map.mp (mem_of_coerce h)
  rfl

namespace ValueType

/-- The types whose values are told from all others: numbers and enumerations. -/
def isStrict : ValueType → Bool
  | .integer | .number | .enumeration _ => true
  | _ => false

def isInstance : ValueType → Datum → Bool
  | .integer, .integer _ => true
  | .number, .number _ => true
  | .enumeration e, .member m => m.type = e
  | _, _ => false

/-- Nothing, a value of the type, or a list of such values. -/
def fits (type : ValueType) : Datum → Bool
  | .null => true
  | .list ds => ds.all type.isInstance
  | d => type.isInstance d

/-- A value of the type, or a text, which is converted to one or refused. -/
def isReadable (type : ValueType) : Datum → Bool
  | .text _ => true
  | d => type.isInstance d

def takes (type : ValueType) : Datum → Bool
  | .null => true
  | .list vs => vs.all type.isReadable
  | v => type.isReadable v

variable {type : ValueType} {v d : Datum} {vs ds : List Datum}

theorem coerceText_isInstance (hs : type.isStrict = true) {raw : Text}
    (h : type.coerceText raw = .ok d) : type.isInstance d = true := by
  cases type with
  | integer | number =>
    rw [coerceText] at h
    split at h
    · obtain rfl := Except.ok.inj h
      rfl
    all_goals cases h
  | enumeration e =>
    obtain ⟨m, hm, rfl⟩ := exists_of_map_eq_ok h
    exact decide_eq_true (Enumeration.type_of_coerce hm)
  | text | boolean | any | mixed | mixedOptional | script | foreign => cases hs

theorem isInstance_list (type : ValueType) (ds : List Datum) :
    type.isInstance (.list ds) = false := by
  cases type <;> rfl

theorem isInstance_coerce (hs : type.isStrict = true) (h : type.coerce v = .ok d) :
    type.isInstance d = type.isReadable v := by
  cases v with
  | text raw => exact coerceText_isInstance hs (by rwa [coerce] at h)
  | list vs =>
    rw [coerce] at h
    obtain ⟨ds, -, rfl⟩ := exists_of_map_eq_ok h
    rw [isReadable, isInstance_list, isInstance_list]
    simp
  | null | boolean | integer | number | member | script | moment | map | object =>
    rw [coerce] at h
    · obtain rfl := Except.ok.inj h
      rfl
    all_goals simp

theorem all_isInstance_coerceAll (hs : type.isStrict = true) (h : type.coerceAll vs = .ok ds) :
    ds.all type.isInstance = vs.all type.isReadable := by
  induction vs generalizing ds with
  | nil =>
    rw [coerceAll] at h
    obtain rfl := Except.ok.inj h
    rfl
  | cons v vs ih =>
    rw [coerceAll] at h
    cases hv : type.coerce v with
    | error fault =>
      rw [hv] at h
      cases h
    | ok first =>
      cases hvs : type.coerceAll vs with
      | error fault =>
        rw [hv, hvs] at h
        cases h
      | ok rest =>
        rw [hv, hvs] at h
        obtain rfl := Except.ok.inj h
        rw [List.all_cons, List.all_cons, isInstance_coerce hs hv, ih hvs]

/-- A converted value fits a strict type just when there was nothing but texts and values of the
type to convert. -/
theorem fits_coerce (hs : type.isStrict = true) (h : type.coerce v = .ok d) :
    type.fits d = type.takes v := by
  cases v with
  | list vs =>
    rw [coerce] at h
    obtain ⟨ds, hds, rfl⟩ := exists_of_map_eq_ok h
    exact all_isInstance_coerceAll hs hds
  | text raw =>
    rw [coerce] at h
    have hd := coerceText_isInstance hs h
    cases d with
    | null => rfl
    | list ds => simp [isInstance_list] at hd
    | _ => exact hd
  | null | boolean | integer | number | member | script | moment | map | object =>
    rw [coerce] at h
    · obtain rfl := Except.ok.inj h
      rfl
    all_goals simp

end ValueType

namespace Argument

/-- What is bound to a parameter: texts as typed, a truth value or nothing, or a variable that
nobody has asked for yet. -/
inductive Typed : Argument → Prop where
  | text (s : Text) : Typed (.known (.text s))
  | texts (ss : List Text) : Typed (.known (.list (ss.map .text)))
  | truth (b : Bool) : Typed (.known (.boolean b))
  | nothing : Typed (.known .null)
  | reference (name : Text) : Typed (.deferred name none)

variable {a : Argument} {name : Text} {d : Datum}

theorem typed_of_automatic? (h : automatic? name = some d) : (known d).Typed := by
  simp only [automatic?] at h
  split at h
  · exact Option.some.inj h ▸ .truth true
  · split at h
    · exact Option.some.inj h ▸ .truth false
    · split at h
      · exact Option.some.inj h ▸ .nothing
      · cases h

/-- Only a truth value and a variable can stand for something that no text is converted to. -/
theorem Typed.takes_resolve (h : a.Typed) (vars : Variables) (type : ValueType) :
    type.takes (a.resolve vars) = true ↔ (∀ b, a ≠ .known (.boolean b)) ∧
      ∀ name, a = .deferred name none → type.takes (vars.value name) = true := by
  cases h with
  | text s => simp [resolve, ValueType.takes, ValueType.isReadable]
  | texts ss => simp [resolve, ValueType.takes, ValueType.isReadable]
  | truth b => cases type <;> simp [resolve, ValueType.takes, ValueType.isReadable,
      ValueType.isInstance]
  | nothing => simp [resolve, ValueType.takes]
  | reference name => simp [resolve]

end Argument

theorem InvocationFault.ofConversion_fault (parameter : Text) {cause : Fault}
    (h : cause.kind.isMisfit = true) :
    ofConversion parameter (.fault cause) = .unconvertible parameter cause := by
  rw [ofConversion, Raised.kind_fault, if_pos h]
  rfl

namespace Binding

theorem typed_valueOf (e : Element) : (valueOf e).Typed := by
  fun_cases valueOf e with
  | case1 t _ _ d h => exact Argument.typed_of_automatic? h
  | case2 => exact .reference _
  | case3 => exact .text _
  | case4 => exact .text _
  | case5 =>
    have htexts := Argument.Typed.texts (e.parts.map (·.value))
    rwa [List.map_map] at htexts

theorem typed_inlineValue (inline : Text) : (inlineValue inline).Typed := by
  fun_cases inlineValue inline with
  | case1 name d h => exact Argument.typed_of_automatic? h
  | case2 => exact .text _
  | case3 => exact .text _

theorem typed_valueAfter (e : Element) (following : Option Element) (isSwitch : Bool) :
    (valueAfter e following isSwitch).1.Typed := by
  fun_cases valueAfter e following isSwitch with
  | case1 => exact typed_inlineValue _
  | case2 => exact .truth true
  | case3 => exact typed_valueOf _
  | case4 => exact .truth true

def BoundAs (attached : Entries Text AttachedMatch) (entry : Text × Argument) : Prop :=
  entry.2.Typed ∨ entry.1 ∈ attached.map (·.1)

theorem gathered_typed (declared : List Parameter) (types : Option TypeRegistry)
    (elements : List Element) :
    let pass := gathered declared types elements
    (∀ entry ∈ pass.named, BoundAs pass.attached entry) ∧ ∀ v ∈ pass.values, v.2.Typed := by
  refine gathered_induction (motive := fun _ pass =>
    (∀ entry ∈ pass.named, BoundAs pass.attached entry) ∧ ∀ v ∈ pass.values, v.2.Typed) ?_ ?_ ?_
  · simp [Pass.start]
  · rintro rs pass index e ⟨hnamed, hvalues⟩
    refine ⟨hnamed, fun v hv => ?_⟩
    rcases List.mem_append.mp hv with hv | hv
    · exact hvalues v hv
    · exact List.mem_singleton.mp hv ▸ typed_valueOf e
  · rintro rs pass e rest r consumed noted - - hr ⟨hnamed, hvalues⟩
    rw [Reading.after_values]
    refine ⟨?_, hvalues⟩
    cases hr with
    | @declared p _ _ _ hvalue =>
      have htyped := typed_valueAfter e rest.head? p.isSwitch
      rw [hvalue] at htyped
      intro entry hin
      rcases Entries.eq_or_mem_of_mem_set hin with rfl | hin
      · exact .inl htyped
      · exact hnamed entry hin
    | member =>
      intro entry hin
      rcases Entries.eq_or_mem_of_mem_set hin with rfl | hin
      · exact .inr (Entries.mem_keys_set.mpr (.inl rfl))
      · exact (hnamed entry hin).imp_right fun hkey => Entries.mem_keys_set.mpr (.inr hkey)
    | unknown | ambiguous => exact hnamed

theorem bind_typed (elements : List Element) (cursor : Int) (declared : List Parameter)
    (types : Option TypeRegistry) :
    let b := bind elements cursor declared types
    ∀ entry ∈ b.named, BoundAs b.attached entry := by
  intro b entry hin
  obtain ⟨hnamed, -, hattached⟩ := bind_eq_update elements cursor declared types
  obtain ⟨htyped, hvalues⟩ := gathered_typed declared types elements
  rw [hattached]
  rw [hnamed] at hin
  rcases Entries.mem_or_mem_of_mem_update hin with hin | hin
  · exact htyped entry hin
  · obtain ⟨⟨p, value⟩, hpair, rfl⟩ := List.mem_map.mp hin
    exact .inl (hvalues value (List.of_mem_zip hpair).2)

section Passed

variable {σ : Type} {c : Command σ} {b : Binding} {vars : Variables}
  {given passed : Entries Text Datum} {arguments : List (Text × Argument)}

theorem mem_keywordsFrom (h : keywordsFrom c b vars given arguments = .ok passed)
    {entry : Text × Datum} (hin : entry ∈ passed) : entry ∈ given ∨
      ∃ bound ∈ arguments, passed? c b vars bound.1 bound.2 = .ok (some entry) := by
  induction arguments generalizing given with
  | nil =>
    obtain rfl := Except.ok.inj h
    exact .inl hin
  | cons bound rest ih =>
    rw [keywordsFrom_cons] at h
    split at h
    · cases h
    · refine (ih h).imp_right ?_
      rintro ⟨other, hother, hpassed⟩
      exact ⟨other, List.mem_cons_of_mem _ hother, hpassed⟩
    · rename_i one hone
      rcases ih h with hin | ⟨other, hother, hpassed⟩
      · rcases Entries.eq_or_mem_of_mem_set hin with rfl | hin
        · exact .inr ⟨bound, List.mem_cons_self, hone⟩
        · exact .inl hin
      · exact .inr ⟨other, List.mem_cons_of_mem _ hother, hpassed⟩

theorem exists_of_keywordsFrom_error {fault : InvocationFault}
    (h : keywordsFrom c b vars given arguments = .error fault) :
    ∃ bound ∈ arguments, passed? c b vars bound.1 bound.2 = .error fault := by
  induction arguments generalizing given with
  | nil => cases h
  | cons bound rest ih =>
    rw [keywordsFrom_cons] at h
    split at h
    · rename_i other hone
      obtain rfl := Except.error.inj h
      exact ⟨bound, List.mem_cons_self, hone⟩
    all_goals
      obtain ⟨other, hother, hpassed⟩ := ih h
      exact ⟨other, List.mem_cons_of_mem _ hother, hpassed⟩

/-- The argument of a parameter, whose value is asked for. An argument under the key of a member
is passed as the member. -/
def Asks (c : Command σ) (b : Binding) (p : Parameter) (a : Argument) : Prop :=
  ∃ name, (name, a) ∈ b.named ∧ b.attached.get? name = none ∧ c.parameter? name = some p

theorem asks_of_passed? {bound : Text × Argument} (hin : bound ∈ b.named) {entry : Text × Datum}
    (h : passed? c b vars bound.1 bound.2 = .ok (some entry)) :
    (∃ m, b.attached.get? entry.1 = some m ∧ entry.2 = m.value) ∨
      ∃ p a, Asks c b p a ∧ p.keyword = entry.1 ∧ p.type.coerce (a.resolve vars) = .ok entry.2 := by
  revert h
  fun_cases passed? c b vars bound.1 bound.2 with
  | case1 m hm =>
    intro h
    obtain rfl := Option.some.inj (Except.ok.inj h)
    exact .inl ⟨m, hm, rfl⟩
  | case2 | case4 =>
    intro h
    cases h
  | case3 hnone p hp d hd =>
    intro h
    obtain rfl := Option.some.inj (Except.ok.inj h)
    exact .inr ⟨p, bound.2, ⟨bound.1, hin, hnone, hp⟩, rfl, hd⟩

theorem refuses_of_passed? {bound : Text × Argument} (hin : bound ∈ b.named)
    {fault : InvocationFault} (h : passed? c b vars bound.1 bound.2 = .error fault) :
    ∃ p a raised, Asks c b p a ∧ p.type.coerce (a.resolve vars) = .error raised ∧
      fault = .ofConversion p.name raised := by
  revert h
  fun_cases passed? c b vars bound.1 bound.2 with
  | case1 | case2 | case3 =>
    intro h
    cases h
  | case4 hnone p hp raised hraised =>
    intro h
    exact ⟨p, bound.2, raised, ⟨bound.1, hin, hnone, hp⟩, hraised, (Except.error.inj h).symm⟩

theorem keywords_ok_or_refused (herrors : b.errors = []) (hpositional : b.positional = []) :
    (∃ passed, b.keywords c vars = .ok passed) ∧
        (∀ p a, Asks c b p a → ∃ d, p.type.coerce (a.resolve vars) = .ok d) ∨
      ∃ p a raised, Asks c b p a ∧ p.type.coerce (a.resolve vars) = .error raised ∧
        b.keywords c vars = .error (.ofConversion p.name raised) := by
  have hkeywords : b.keywords c vars = keywordsFrom c b vars [] b.named := by
    simp [keywords, herrors, hpositional]
  rw [hkeywords]
  cases hk : keywordsFrom c b vars [] b.named with
  | ok passed =>
    refine .inl ⟨⟨passed, rfl⟩, ?_⟩
    rintro p a ⟨name, hin, hnone, hp⟩
    obtain ⟨one, hone⟩ := (keywordsFrom_ok_iff []).mp ⟨passed, hk⟩ _ hin
    cases hd : p.type.coerce (a.resolve vars) with
    | ok d => exact ⟨d, rfl⟩
    | error raised =>
      simp only [passed?, hnone, hp, hd] at hone
      cases hone
  | error fault =>
    obtain ⟨bound, hin, hrefused⟩ := exists_of_keywordsFrom_error hk
    obtain ⟨p, a, raised, hasks, hraised, rfl⟩ := refuses_of_passed? hin hrefused
    exact .inr ⟨p, a, raised, hasks, hraised, rfl⟩

end Passed

/-- Every keyword is the value of an attached member, or a converted value of a parameter. Where the
type is one of numbers or an enumeration, that value fits it unless the argument was a truth value
or a variable that holds something of another type. A value that does not convert is a type error,
but for foreign types that raise something else than that it does not fit. -/
theorem keywords_typed {σ : Type} (c : Command σ) (types : Option TypeRegistry)
    (elements : List Element) (cursor : Int) (vars : Variables) :
    let b := bind elements cursor c.parameters types
    (∀ passed, b.keywords c vars = .ok passed → ∀ entry ∈ passed,
      (∃ m, b.attached.get? entry.1 = some m ∧ entry.2 = m.value) ∨
        ∃ p a, Asks c b p a ∧ p.keyword = entry.1 ∧
          p.type.coerce (a.resolve vars) = .ok entry.2 ∧
          (p.type.isStrict = true → (p.type.fits entry.2 = true ↔
            (∀ truth, a ≠ .known (.boolean truth)) ∧
              ∀ name, a = .deferred name none → p.type.takes (vars.value name) = true))) ∧
    (b.errors = [] → b.positional = [] →
      (∃ passed, b.keywords c vars = .ok passed) ∧
          (∀ p a, Asks c b p a → ∃ d, p.type.coerce (a.resolve vars) = .ok d) ∨
        ∃ p a raised fault, Asks c b p a ∧ p.type.coerce (a.resolve vars) = .error raised ∧
          fault = .ofConversion p.name raised ∧ b.keywords c vars = .error fault ∧
          ((∀ f, p.type = .foreign f → p.type.OnlyMisfits) → ∃ cause : Fault,
            raised = .fault cause ∧ fault = .unconvertible p.name cause ∧
              fault.raised.kind = .type)) := by
  intro b
  constructor
  · intro passed hpassed entry hin
    obtain ⟨-, -, hfrom⟩ := keywords_eq_ok.mp hpassed
    obtain ⟨bound, hbound, hone⟩ := (mem_keywordsFrom hfrom hin).resolve_left List.not_mem_nil
    refine (asks_of_passed? hbound hone).imp_right ?_
    rintro ⟨p, a, hasks, hkeyword, hd⟩
    refine ⟨p, a, hasks, hkeyword, hd, fun hstrict => ?_⟩
    obtain ⟨name, hnamed, hnone, -⟩ := hasks
    -- The argument is not the value of a member, so that it is one of those that were typed.
    have htyped : a.Typed := by
      refine (bind_typed elements cursor c.parameters types _ hnamed).resolve_right fun hkey => ?_
      rw [← Entries.isSome_get?, hnone] at hkey
      cases hkey
    rw [ValueType.fits_coerce hstrict hd]
    exact htyped.takes_resolve vars p.type
  · intro herrors hpositional
    refine (keywords_ok_or_refused herrors hpositional).imp_right ?_
    rintro ⟨p, a, raised, hasks, hraised, hrefused⟩
    refine ⟨p, a, raised, _, hasks, hraised, rfl, hrefused, fun hforeign => ?_⟩
    obtain ⟨raw, hraw⟩ := ValueType.exists_of_coerce_eq_error hraised
    obtain ⟨cause, rfl, hcause⟩ := ValueType.onlyMisfits_of hforeign raw _ hraw
    have hfault := InvocationFault.ofConversion_fault p.name hcause
    exact ⟨cause, rfl, hfault, by rw [hfault]; rfl⟩

def taking (type : ValueType) : Command Unit where
  name := "Cmd".toList
  description := []
  example? := []
  action := ⟨true, fun _ state => (.value .null, state)⟩
  parameters := [⟨"N".toList, [], none, false, type, [], []⟩]
  origin := []
  category := Command.general
  completers := []
  aliases := []

theorem keywords_typed_taking :
    let c := taking .integer
    let b := bind (Element.ofTokens (Token.scan "Cmd -N 3".toList)) (-1) c.parameters none
    b.errors = [] ∧ b.positional = [] ∧ ∃ passed, b.keywords c [] = .ok passed ∧
      ∀ entry ∈ passed, ValueType.integer.fits entry.2 = true := by
  intro c b
  obtain ⟨htyped, -⟩ := keywords_typed c none
    (Element.ofTokens (Token.scan "Cmd -N 3".toList)) (-1) []
  have herrors : b.errors = [] := by decide +kernel
  have hpositional : b.positional.length = 0 := by decide +kernel
  have hattached : b.attached.length = 0 := by decide +kernel
  have hreadable : b.named.all (fun entry =>
      ValueType.integer.isReadable (entry.2.resolve [])) = true := by decide +kernel
  have hpassed : (b.keywords c []).toOption.isSome = true := by decide +kernel
  cases hk : b.keywords c [] with
  | error fault =>
    rw [hk] at hpassed
    cases hpassed
  | ok passed =>
    refine ⟨herrors, List.length_eq_zero_iff.mp hpositional, passed, rfl, fun entry hin => ?_⟩
    rcases htyped passed hk entry hin with ⟨m, hm, -⟩ | ⟨p, a, hasks, -, -, hfits⟩
    · rw [List.length_eq_zero_iff.mp hattached] at hm
      cases hm
    · obtain ⟨name, hnamed, -, hp⟩ := hasks
      obtain rfl := List.mem_singleton.mp (List.mem_of_find?_eq_some hp)
      have ha := List.all_eq_true.mp hreadable _ hnamed
      refine (hfits rfl).mpr ⟨?_, ?_⟩
      · rintro truth rfl
        cases ha
      · rintro held rfl
        cases ha

/-- A member is asked for: a variable that holds the value of one is passed as it is, while the same
value typed as a text becomes the member. A name without a value is passed as a truth value even
where a number is asked for. -/
theorem keywords_typed_unconverted :
    let level : ValueType :=
      .enumeration ⟨"Level".toList, [("Low".toList, .integer 1), ("High".toList, .integer 2)]⟩
    let passed (type : ValueType) (line : Text) :=
      ((bind (Element.ofTokens (Token.scan line)) (-1) (taking type).parameters none).keywords
        (taking type) [("x".toList, .integer 2)]).toOption.map fun passed =>
          passed.map fun entry => (entry.1, entry.2.print.toOption, type.fits entry.2)
    passed level "Cmd -N $x".toList = some [("N".toList, some ['2'], false)] ∧
      passed level "Cmd -N 2".toList = some [("N".toList, some "Level.High".toList, true)] ∧
      passed .integer "Cmd -N".toList = some [("N".toList, some "True".toList, false)] := by
  refine ⟨?_, ?_, ?_⟩
  all_goals decide +kernel

end Binding

end CommandShell
