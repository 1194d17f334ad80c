import CommandShell.Pool.Basic
import CommandShell.Proofs.Entries

/-!
What those who offer candidates are told of an invocation. They ask for a name in any case, and are
answered with the first name of that spelling: a name without a meaning that was typed in another
case comes before the bound parameter.
-/

set_option autoImplicit false

namespace CommandShell

namespace Text

theorem ofNat_injective : Function.Injective ofNat := by
  intro m n h
  have hread := congrArg (Nat.ofDigitChars 10 · 0) h
  simpa only [ofNat, Nat.ofDigitChars_ten_toDigits] using hread

end Text

namespace Binding

variable {declared : List Parameter} {types : Option TypeRegistry} {elements : List Element}
  {cursor : Int}

/-- The values that no parameter took, under the numbered keys that they are supplied under. -/
def numbered (b : Binding) : Entries Text Argument :=
  b.positional.zipIdx.map fun (value, index) => ("$pos".toList ++ Text.ofNat index, value)

theorem supplied_eq (b : Binding) : b.supplied =
    Entries.update (Entries.update (Entries.ofList b.unknown) b.named) b.numbered := rfl

theorem nodup_keys_numbered (b : Binding) : (b.numbered.map (·.1)).Nodup := by
  have hkeys : b.numbered.map (·.1) =
      (List.range b.positional.length).map fun index => "$pos".toList ++ Text.ofNat index := by
    rw [numbered, List.map_map, List.range_eq_range', ← List.zipIdx_map_snd 0 b.positional,
      List.map_map]
    rfl
  rw [hkeys]
  exact List.nodup_range.map fun m n h => Text.ofNat_injective (List.append_cancel_left h)

theorem bind_nodup_keys (elements : List Element) (cursor : Int) (declared : List Parameter)
    (types : Option TypeRegistry) :
    let b := bind elements cursor declared types
    (b.named.map (·.1)).Nodup ∧ (b.unknown.map (·.1)).Nodup := by
  obtain ⟨hnamed, hunknown⟩ : ((gathered declared types elements).named.map (·.1)).Nodup ∧
      ((gathered declared types elements).unknown.map (·.1)).Nodup := by
    refine gathered_induction (motive := fun _ pass => (pass.named.map (·.1)).Nodup ∧
      (pass.unknown.map (·.1)).Nodup) ⟨List.nodup_nil, List.nodup_nil⟩ ?_ ?_
    · exact fun _ _ _ _ h => h
    · rintro rs pass e rest r consumed noted - - - ⟨hnamed, hunknown⟩
      cases r with
      | declared p value => exact ⟨Entries.nodup_keys_set hnamed _ _, hunknown⟩
      | member m => exact ⟨Entries.nodup_keys_set hnamed _ _, hunknown⟩
      | unknown typed value => exact ⟨hnamed, Entries.nodup_keys_set hunknown _ _⟩
  obtain ⟨hnamed', hunknown', -⟩ := bind_eq_update elements cursor declared types
  dsimp only
  rw [hnamed', hunknown']
  exact ⟨Entries.nodup_keys_update hnamed _, hunknown⟩

/-- What is supplied under a name: a value without a name, else a bound one, else an unknown one. -/
def shown? (b : Binding) (name : Text) : Option Argument :=
  (b.numbered.get? name).or ((b.named.get? name).or (b.unknown.get? name))

theorem supplied_get? (elements : List Element) (cursor : Int) (declared : List Parameter)
    (types : Option TypeRegistry) (name : Text) :
    let b := bind elements cursor declared types
    b.supplied.get? name = b.shown? name := by
  intro b
  obtain ⟨hnamed, hunknown⟩ := bind_nodup_keys elements cursor declared types
  rw [supplied_eq, Entries.get?_update, Entries.get?_update, Entries.ofList_of_nodup hunknown,
    Entries.get?_reverse hnamed, Entries.get?_reverse b.nodup_keys_numbered]
  rfl

theorem supplied_find?_key (elements : List Element) (cursor : Int) (declared : List Parameter)
    (types : Option TypeRegistry) (q : Text → Bool) :
    let b := bind elements cursor declared types
    (b.supplied.map (·.1)).find? q =
      ((b.unknown ++ b.named ++ b.numbered).map (·.1)).find? q := by
  intro b
  rw [supplied_eq, Entries.find?_keys_update, List.find?_append, Entries.find?_keys_update,
    List.find?_append, Entries.find?_keys_ofList, List.map_append, List.find?_append,
    List.map_append, List.find?_append]

end Binding

namespace PoolRequest

variable {request : PoolRequest} {declared : List Parameter} {types : Option TypeRegistry}
  {key : Text} {a : Argument}

/-- The answer is what is supplied under the first name that is the one asked for in some case. -/
theorem bound?_eq (request : PoolRequest) (name : Text) :
    request.bound? name = (((request.supplied.map (·.1)).find? fun other =>
      Text.lower other = Text.lower name).bind request.supplied.get?).map
        (·.resolve request.vars) := by
  rw [← Entries.find?_of_key, bound?, Option.map_map]
  rfl

/-- Asked for a bound key, a request built from a binding answers what is supplied under the first
name that is the key in some case, the names without a meaning coming first. That is the value of
the key itself when no name in another case is given and no value without a name has its key. -/
theorem bound_supplied (elements : List Element) (cursor : Int)
    (hr : request.supplied = (Binding.bind elements cursor declared types).supplied)
    (ha : (Binding.bind elements cursor declared types).named.get? key = some a)
    (fallback : Datum) :
    let b := Binding.bind elements cursor declared types
    (∃ first shown, ((b.unknown ++ b.named).map (·.1)).find? (fun name =>
        Text.lower name = Text.lower key) = some first ∧ b.shown? first = some shown ∧
      request.bound key fallback = shown.resolve request.vars) ∧
    ((∀ name ∈ (b.unknown ++ b.named).map (·.1), Text.lower name = Text.lower key → name = key) →
      key ∉ b.numbered.map (·.1) → request.bound key fallback = a.resolve request.vars) := by
  intro b
  have hkey : key ∈ (b.unknown ++ b.named).map (·.1) := by
    rw [List.map_append]
    exact List.mem_append_right _ (Entries.isSome_get?.mp (by rw [ha]; rfl))
  obtain ⟨first, hfirst⟩ := Option.isSome_iff_exists.mp
    ((List.find?_isSome (p := fun name => decide (Text.lower name = Text.lower key))).mpr
      ⟨key, hkey, decide_eq_true rfl⟩)
  have hsupplied : (request.supplied.map (·.1)).find? (fun name =>
      Text.lower name = Text.lower key) = some first := by
    rw [hr, Binding.supplied_find?_key, List.map_append, List.find?_append, hfirst, Option.some_or]
  obtain ⟨shown, hshown⟩ : ∃ shown, b.shown? first = some shown := by
    refine Option.isSome_iff_exists.mp ?_
    have hin := List.mem_of_find?_eq_some hsupplied
    rwa [hr, ← Entries.isSome_get?, Binding.supplied_get?] at hin
  have hbound : request.bound key fallback = shown.resolve request.vars := by
    rw [bound, bound?_eq, hsupplied, Option.bind_some, hr, Binding.supplied_get?, hshown]
    rfl
  refine ⟨⟨first, shown, hfirst, hshown, hbound⟩, fun hspelled hnumbered => ?_⟩
  -- With one spelling only, the first name is the key, and nothing is set over what is bound to it.
  have hlower : Text.lower first = Text.lower key := by simpa using List.find?_some hfirst
  obtain rfl : first = key := hspelled first (List.mem_of_find?_eq_some hfirst) hlower
  rw [Binding.shown?, Entries.get?_of_notMem hnumbered, Option.none_or, ha,
    Option.some_or] at hshown
  rw [hbound, Option.some.inj hshown]

/-- A name without a meaning and a value that no parameter took do not hide a bound parameter. -/
theorem bound_supplied_cell :
    let b := Binding.bind (Element.ofTokens (Token.scan "Set -to a b c -Nil z".toList)) (-1)
      Binding.cell none
    let request : PoolRequest := ⟨"Set".toList, "Text".toList, b.supplied, [], [], false⟩
    b.unknown.map (·.1) = ["Nil".toList] ∧ b.numbered.map (·.1) = ["$pos0".toList] ∧
      (request.bound "Path".toList .null).print.toOption = some "a".toList := by
  intro b request
  have hunknown : b.unknown.map (·.1) = ["Nil".toList] := by decide +kernel
  have hnumbered : b.numbered.map (·.1) = ["$pos0".toList] := by decide +kernel
  have hnamed : b.named.map (·.1) = ["Path".toList, "Text".toList] := by decide +kernel
  have hvalue : (b.named.get? "Path".toList).map (·.resolve [] |>.print.toOption) =
      some (some "a".toList) := by
    decide +kernel
  obtain ⟨a, ha, hprint⟩ := Option.map_eq_some_iff.mp hvalue
  obtain ⟨-, hbound⟩ := bound_supplied _ _ (rfl : request.supplied = b.supplied) ha .null
  refine ⟨hunknown, hnumbered, hprint ▸ congrArg (·.print.toOption) (hbound ?_ ?_)⟩
  · rw [List.map_append, hunknown, hnamed]
    decide +kernel
  · rw [hnumbered]
    decide +kernel

/-- A name that is given twice, the second time in another case, hides the bound value. -/
theorem bound_supplied_spelling :
    let declared : List Parameter := [⟨"A".toList, [], none, false, .text, [], []⟩]
    let b := Binding.bind (Element.ofTokens (Token.scan "Cmd -A x -a y".toList)) (-1) declared none
    let request : PoolRequest := ⟨"Cmd".toList, "A".toList, b.supplied, [], [], false⟩
    (b.named.get? "A".toList).map (·.resolve request.vars |>.print.toOption) =
        some (some "x".toList) ∧
      (request.bound "A".toList .null).print.toOption = some "y".toList := by
  decide +kernel

end PoolRequest

end CommandShell
