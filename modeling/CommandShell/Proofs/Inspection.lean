import CommandShell.Inspection
import CommandShell.Proofs.Owner.Registry
import CommandShell.Proofs.Pool.Collected

/-!
How the names of types and members that are offered for each other fit the command that lists
members. A member's name that is offered for a type is found there. A type is offered by its simple
name, and is found by that unless another type is called so, too.
-/

set_option autoImplicit false

namespace CommandShell

namespace Inspection

variable {types : TypeRegistry} {r : PoolRequest} {d : Datum} {kind : Option MemberKind}
  {name : Text}

/-! ## What is wanted -/

def kindValue : Option MemberKind → Datum
  | none => .null
  | some .property => .member ⟨MemberKind.enumeration, "PROPERTY".toList, .text "Property".toList⟩
  | some .event => .member ⟨MemberKind.enumeration, "EVENT".toList, .text "Event".toList⟩

theorem isWantedKind_kindValue (kind : Option MemberKind) (m : Attachable) :
    isWantedKind (kindValue kind) m = isOfKind kind m := by
  match kind with
  | none => rfl
  | some kind =>
    have hkind : ∃ member, kindValue (some kind) = .member member ∧
        MemberKind.ofMember? member = some kind := by
      cases kind <;> exact ⟨_, rfl, by decide +kernel⟩
    obtain ⟨member, hvalue, hmember⟩ := hkind
    rw [hvalue, isWantedKind, hmember, isOfKind]
    simp [eq_comm]

def IsGiven (d : Datum) : Prop := d = .null ∨ ∃ s, d = .text s

def given : Datum → Text
  | .text s => s
  | _ => []

/-- The request was told this name, without blanks around it. -/
def Supplies (r : PoolRequest) (name : String) (d : Datum) : Prop :=
  r.bound name.toList .null = d ∧ IsGiven d ∧ Text.strip (given d) = given d

theorem Supplies.boundText {name : String} (h : Supplies r name d) :
    boundText r name = given d := by
  obtain ⟨hbound, rfl | ⟨s, rfl⟩, hstrip⟩ := h
  · rw [Inspection.boundText, hbound]
    rfl
  · rw [Inspection.boundText, hbound]
    exact hstrip

def Has (owner : OwnerType) (kind : Option MemberKind) (start : Text) : Prop :=
  ∃ m ∈ owner.members, isOfKind kind m = true ∧ begins (Text.lower start) m = true

instance (owner : OwnerType) (kind : Option MemberKind) (start : Text) :
    Decidable (Has owner kind start) :=
  inferInstanceAs (Decidable (∃ m ∈ owner.members, _))

theorem isWantedName_eq (h : IsGiven d) (m : Attachable) :
    isWantedName d m = .ok (begins (Text.lower (given d)) m) := by
  obtain rfl | ⟨s, rfl⟩ := h
  · rfl
  · cases s <;> rfl

/-! ## Rows -/

theorem mem_ownersOf (h : IsGiven d) {owner : OwnerType} :
    (∃ owners, ownersOf types d = .ok owners ∧ owner ∈ owners) ↔
      owner ∈ if (given d).isEmpty then types.all else (types.resolve (given d)).toList := by
  have hall {owners : List OwnerType} :
      (∃ found, (.ok owners : Except Fault (List OwnerType)) = .ok found ∧ owner ∈ found) ↔
        owner ∈ owners :=
    ⟨fun ⟨_, hfound, hin⟩ => Except.ok.inj hfound ▸ hin, fun hin => ⟨_, rfl, hin⟩⟩
  obtain rfl | ⟨s, rfl⟩ := h
  · exact hall
  · cases s with
    | nil => exact hall
    | cons c s =>
      simp only [ownersOf, Datum.isTruthy, given, List.isEmpty_cons]
      cases types.resolve (c :: s) with
      | none => simp
      | some found => exact hall.trans (by simp)

theorem rows_eq (h : IsGiven d) (kind : Option MemberKind) (pairs : List (OwnerType × Attachable)) :
    rows d (kindValue kind) pairs = .ok ((pairs.filter fun pair =>
      isOfKind kind pair.2 && begins (Text.lower (given d)) pair.2).map fun pair =>
        row pair.1 pair.2) := by
  induction pairs with
  | nil => rfl
  | cons pair rest ih =>
    obtain ⟨owner, m⟩ := pair
    rw [rows, isWantedKind_kindValue, isWantedName_eq h, ih]
    cases hkind : isOfKind kind m <;>
      cases hname : begins (Text.lower (given d)) m <;>
        simp [hkind, hname, bind, Except.bind, pure, Except.pure]

def listing (typeName memberName kind : Datum) : Call :=
  ⟨[("type_name".toList, typeName), ("member_name".toList, memberName),
    ("member_type".toList, kind)], []⟩

/-- There is at least one row, and the command answers with a table of the rows. -/
def Lists (types : TypeRegistry) (typeName memberName kind : Datum) : Prop :=
  ∃ found, found ≠ [] ∧ memberRows types typeName memberName kind = .ok found ∧
    ∀ {σ : Type} (state : σ),
      (command types).action.run (listing typeName memberName kind) state =
        (answer (.ok found), state)

/-- There are rows just when one of the types that are looked at has a member that is wanted. -/
theorem lists_iff (h : IsGiven d) (types : TypeRegistry) (typeName : Datum)
    (kind : Option MemberKind) :
    Lists types typeName d (kindValue kind) ↔
      ∃ owner, (∃ owners, ownersOf types typeName = .ok owners ∧ owner ∈ owners) ∧
        Has owner kind (given d) := by
  constructor
  · rintro ⟨found, hne, hrows, -⟩
    obtain ⟨owners, howners, hrows⟩ := of_bind_eq_ok hrows
    rw [rows_eq h] at hrows
    obtain rfl := Except.ok.inj hrows
    obtain ⟨pair, hpair⟩ := List.exists_mem_of_ne_nil _ (mt List.map_eq_nil_iff.mpr hne)
    obtain ⟨hin, hwanted⟩ := List.mem_filter.mp hpair
    obtain ⟨owner, howner, hin⟩ := List.mem_flatMap.mp hin
    obtain ⟨m, hm, rfl⟩ := List.mem_map.mp hin
    exact ⟨owner, ⟨owners, howners, howner⟩, m, hm, Bool.and_eq_true_iff.mp hwanted⟩
  · rintro ⟨owner, ⟨owners, howners, howner⟩, m, hm, hkind, hname⟩
    have hrows := rows_eq h kind (owners.flatMap fun owner => owner.members.map fun m => (owner, m))
    have hall : memberRows types typeName d (kindValue kind) = rows d (kindValue kind)
        (owners.flatMap fun owner => owner.members.map fun m => (owner, m)) := by
      rw [memberRows, howners]
      rfl
    rw [← hall] at hrows
    refine ⟨_, mt List.map_eq_nil_iff.mp ?_, hrows, fun state => ?_⟩
    · refine List.ne_nil_of_mem (a := (owner, m)) (List.mem_filter.mpr ⟨?_, ?_⟩)
      · exact List.mem_flatMap.mpr ⟨owner, howner, List.mem_map_of_mem hm⟩
      · exact Bool.and_eq_true_iff.mpr ⟨hkind, hname⟩
    · rw [← hrows]
      rfl

/-! ## What is offered -/

def Offers (supply : Supply) (name : Text) : Prop :=
  ∃ i entry, supply.answer i = .entry entry ∧ entry.value = .text name

theorem offers_finite {entries : List PoolEntry} {ending : Ending} :
    Offers (.finite entries ending) name ↔ ∃ entry ∈ entries, entry.value = .text name := by
  simp only [Offers, Supply.answer_finite_eq_entry]
  constructor
  · rintro ⟨i, entry, hat, hvalue⟩
    exact ⟨entry, List.mem_of_getElem? hat, hvalue⟩
  · rintro ⟨entry, hin, hvalue⟩
    obtain ⟨i, hat⟩ := List.getElem?_of_mem hin
    exact ⟨i, entry, hat, hvalue⟩

theorem offers_typeProvider {σ : Type} {state : σ} :
    Offers (typeProvider types r state) name ↔ r.cancelled = false ∧
      ∃ owner ∈ types.all, owner.name = name ∧
        Has owner (boundKind r) (boundText r "MemberName") := by
  rw [typeProvider, offers_finite]
  cases r.cancelled with
  | true => simp
  | false =>
    simp only [Bool.false_eq_true, if_false, true_and, List.mem_map, List.mem_filter,
      List.any_eq_true, Has]
    constructor
    · rintro ⟨_, ⟨owner, ⟨howner, m, ⟨hm, hkind⟩, hname⟩, rfl⟩, hvalue⟩
      exact ⟨owner, howner, Datum.text.inj hvalue, m, hm, hkind, hname⟩
    · rintro ⟨owner, howner, rfl, m, hm, hkind, hname⟩
      exact ⟨_, ⟨owner, ⟨howner, m, ⟨hm, hkind⟩, hname⟩, rfl⟩, rfl⟩

theorem offers_memberProvider {σ : Type} {state : σ} :
    Offers (memberProvider types r state) name ↔
      ∃ owner ∈ (if (boundText r "TypeName").isEmpty then types.all
        else (types.resolve (boundText r "TypeName")).toList),
        ∃ m ∈ owner.members, isOfKind (boundKind r) m = true ∧ m.name = name := by
  rw [memberProvider, offers_finite]
  simp only [List.mem_flatMap, List.mem_map, List.mem_filter]
  constructor
  · rintro ⟨_, ⟨owner, howner, m, ⟨hm, hkind⟩, rfl⟩, hvalue⟩
    exact ⟨owner, howner, m, hm, hkind, Datum.text.inj hvalue⟩
  · rintro ⟨owner, howner, m, hm, hkind, rfl⟩
    exact ⟨_, ⟨owner, howner, m, ⟨hm, hkind⟩, rfl⟩, rfl⟩

/-- A type that is offered for a member is listed with that member just when its simple name stands
for a type that has such a member; and so it does if no two types are called so. A member that is
offered for a type is always listed with that type. -/
theorem offered_listed {σ : Type} (types : TypeRegistry) (r : PoolRequest) (state : σ) :
    let kind := boundKind r
    (∀ d, Supplies r "MemberName" d → ∀ name, Offers (typeProvider types r state) name →
      (Lists types (.text name) d (kindValue kind) ↔
        name = [] ∨ ∃ owner, types.resolve name = some owner ∧ Has owner kind (given d)) ∧
      (types.Registered →
        (∀ owner ∈ types.all, ∀ other ∈ types.all, TypeRegistry.Names name owner →
          TypeRegistry.Names name other → other = owner) →
        Lists types (.text name) d (kindValue kind))) ∧
    ∀ d, Supplies r "TypeName" d → ∀ name, Offers (memberProvider types r state) name →
      Lists types d (.text name) (kindValue kind) := by
  intro kind
  refine ⟨fun d hd name hoffers => ?_, fun d hd name hoffers => ?_⟩
  · rw [offers_typeProvider, hd.boundText] at hoffers
    obtain ⟨-, owner, howner, rfl, hhas⟩ := hoffers
    have hexact : Lists types (.text owner.name) d (kindValue kind) ↔ owner.name = [] ∨
        ∃ found, types.resolve owner.name = some found ∧ Has found kind (given d) := by
      simp only [lists_iff hd.2.1, mem_ownersOf (.inr ⟨owner.name, rfl⟩), given]
      cases hname : owner.name with
      | nil => simpa using ⟨owner, howner, hhas⟩
      | cons c rest => simp
    refine ⟨hexact, fun hregistered halone => hexact.mpr (.inr ⟨owner, ?_, hhas⟩)⟩
    exact hregistered.resolve_name howner fun other hother =>
      halone owner howner other hother (.inl rfl)
  · rw [offers_memberProvider, hd.boundText] at hoffers
    obtain ⟨owner, howner, m, hm, hkind, rfl⟩ := hoffers
    have hname : begins (Text.lower m.name) m = true := by
      simp [begins, Text.startsWith, List.isPrefixOf_iff_prefix]
    exact (lists_iff (.inr ⟨m.name, rfl⟩) types d kind).mpr
      ⟨owner, (mem_ownersOf hd.2.1).mpr howner, m, hm, hkind, hname⟩

def told (name : String) (value : Text) : PoolRequest :=
  ⟨"Get-TypeMember".toList, [], [(name.toList, .known (.text value))], [], [], false⟩

theorem supplies_told {value : Text} (h : Text.strip value = value) (name : String) :
    Supplies (told name value) name (.text value) := by
  have hfind : (told name value).bound? name.toList = some (.text value) := by
    unfold PoolRequest.bound? told
    simp only [List.find?_cons, decide_true, Option.map_some, Argument.resolve]
  exact ⟨congrArg (·.getD .null) hfind, .inr ⟨value, rfl⟩, h⟩

def grid : OwnerType := .make "Grid".toList "Controls".toList [("Row".toList, .integer)] []

def gridded : TypeRegistry := (TypeRegistry.empty.register grid []).1

def twin : OwnerType := .make "Grid".toList "Shapes".toList [("Size".toList, .integer)] []

def twinned : TypeRegistry := (gridded.register twin []).1

theorem offered_listed_grid :
    let rows := told "MemberName" "row".toList
    let grids := told "TypeName" "grid".toList
    gridded.Registered ∧ Supplies rows "MemberName" (.text "row".toList) ∧
      Offers (typeProvider gridded rows ()) "Grid".toList ∧
      Lists gridded (.text "Grid".toList) (.text "row".toList) .null ∧
      Supplies grids "TypeName" (.text "grid".toList) ∧
      Offers (memberProvider gridded grids ()) "Row".toList ∧
      Lists gridded (.text "grid".toList) (.text "Row".toList) .null := by
  intro rows grids
  have hregistered : gridded.Registered := .register _ _ .empty
  have hrows : Supplies rows "MemberName" (.text "row".toList) :=
    supplies_told (by decide +kernel) _
  have hgrids : Supplies grids "TypeName" (.text "grid".toList) :=
    supplies_told (by decide +kernel) _
  have hkinds : boundKind rows = none ∧ boundKind grids = none := by decide +kernel
  have htype : Offers (typeProvider gridded rows ()) "Grid".toList := by
    rw [offers_typeProvider, hrows.boundText, hkinds.1]
    exact ⟨rfl, grid, List.mem_singleton_self _, rfl, by decide +kernel⟩
  have hmember : Offers (memberProvider gridded grids ()) "Row".toList := by
    have hresolve : grid ∈ (gridded.resolve "grid".toList).toList := Option.mem_toList.mpr rfl
    have hname : ∃ m ∈ grid.members, isOfKind none m = true ∧ m.name = "Row".toList := by
      decide +kernel
    rw [offers_memberProvider, hgrids.boundText, hkinds.2]
    exact ⟨grid, hresolve, hname⟩
  have halone : ∀ owner ∈ gridded.all, ∀ other ∈ gridded.all, other = owner :=
    fun _ howner _ hother =>
      (List.mem_singleton.mp hother).trans (List.mem_singleton.mp howner).symm
  obtain ⟨htypes, -⟩ := offered_listed gridded rows ()
  obtain ⟨-, hmembers⟩ := offered_listed gridded grids ()
  have hrow := (htypes _ hrows _ htype).2 hregistered fun owner howner other hother _ _ =>
    halone owner howner other hother
  have hgrid := hmembers _ hgrids _ hmember
  rw [hkinds.1] at hrow
  rw [hkinds.2] at hgrid
  exact ⟨hregistered, hrows, htype, hrow, hgrids, hmember, hgrid⟩

/-- The first type is offered by the name that both have, and nothing is found by it. -/
theorem offered_twin :
    let rows := told "MemberName" "row".toList
    twinned.Registered ∧ Supplies rows "MemberName" (.text "row".toList) ∧
      Offers (typeProvider twinned rows ()) "Grid".toList ∧
      ¬ Lists twinned (.text "Grid".toList) (.text "row".toList) (kindValue (boundKind rows)) ∧
      (command twinned).action.run (listing (.text "Grid".toList) (.text "row".toList) .null) () =
        (.failed (⟨.value, "Unknown owner type 'Grid'".toList⟩ : Fault), ()) := by
  intro rows
  have hrows : Supplies rows "MemberName" (.text "row".toList) :=
    supplies_told (by decide +kernel) _
  have hkind : boundKind rows = none := by decide +kernel
  have htype : Offers (typeProvider twinned rows ()) "Grid".toList := by
    rw [offers_typeProvider, hrows.boundText, hkind]
    exact ⟨rfl, grid, List.mem_cons_self, rfl, by decide +kernel⟩
  have herror : memberRows twinned (.text "Grid".toList) (.text "row".toList) .null =
      .error ⟨.value, "Unknown owner type 'Grid'".toList⟩ := by
    have hnone : twinned.resolve "Grid".toList = none := by decide +kernel
    have howners : ownersOf twinned (.text "Grid".toList) =
        .error ⟨.value, "Unknown owner type 'Grid'".toList⟩ := by
      rw [ownersOf, if_neg (by decide), hnone]
      rfl
    rw [memberRows, howners]
    rfl
  refine ⟨.register _ _ (.register _ _ .empty), hrows, htype, ?_, ?_⟩
  · rintro ⟨found, -, hfound, -⟩
    rw [hkind] at hfound
    cases herror.symm.trans hfound
  · exact congrArg (fun found => (answer found, ())) herror

end Inspection

end CommandShell
