import CommandShell.Proofs.Binding.Front

/-!
A parameter in the midst of an invocation. What is available when its turn comes is what the names
in front of it leave, whatever values stand between them. What it claims is in use for a cursor on
it, and stays bound to the end.
-/

set_option autoImplicit false

namespace CommandShell

namespace Owner

variable {types : Option TypeRegistry} {e : Element} {adjacent value : Option Element}

theorem findMember_noted (owner : OwnerType) (name : Text) (offset : Option Nat) :
    ∀ d ∈ (findMember owner name offset).2, d.offset = offset := by
  unfold findMember
  split <;> simp

theorem merge_noted : ∀ d ∈ (merge types e adjacent value).2,
    d.offset = some e.start ∨ ∃ v ∈ value, d.offset = some v.start := by
  fun_cases merge types e adjacent value with
  | case1 | case2 | case3 | case6 => exact fun d hd => absurd hd List.not_mem_nil
  | case4 types a _ ownerName memberName inline _ owner _ noted hfind =>
    intro d hd
    have hnoted := findMember_noted owner memberName (some e.start) d
    rw [hfind] at hnoted
    exact .inl (hnoted hd)
  | case5 types a _ ownerName memberName inline _ owner _ member found hfind raw consumed hraw
      offset converted failed hconvert =>
    intro d hd
    rcases List.mem_append.mp hd with hd | hd
    · have hnoted := findMember_noted owner memberName (some e.start) d
      rw [hfind] at hnoted
      exact .inl (hnoted hd)
    · have hnoted := convert_noted owner member raw offset
      rw [hconvert] at hnoted
      rcases hnoted with hnone | ⟨_, _, _, _, hone⟩
      · have hnone : failed = [] := hnone
        rw [hnone] at hd
        cases hd
      · have hone : failed = _ := hone
        rw [hone] at hd
        obtain rfl := List.mem_singleton.mp hd
        simp only [offset]
        split
        · exact .inr ⟨_, rfl, rfl⟩
        · exact .inl rfl

end Owner

namespace Binding

variable {declared : List Parameter} {types : Option TypeRegistry} {context : Context}
  {pass : Pass} {p : Parameter} {e x : Element} {before tail rest : List Element} {r : Reading}
  {consumed : Nat} {noted : List Diagnostic} {value : Argument}

def typedNames (elements : List Element) : List Text :=
  (elements.filter (·.isParameter)).map (·.text)

/-- What a name leaves of the parameters that are available: it takes the one that it means. -/
def leftBy (available : Entries Text Parameter) (typed : Text) : Entries Text Parameter :=
  if typed.isEmpty then available
  else match Parameter.matching typed (available.map (·.2)) with
    | [p] => available.erase (Text.lower p.name)
    | _ => available

theorem leftBy_sublist (available : Entries Text Parameter) (typed : Text) :
    (leftBy available typed).Sublist available := by
  unfold leftBy
  split
  · exact List.Sublist.refl _
  · split
    · exact List.filter_sublist
    · exact List.Sublist.refl _

theorem foldl_leftBy_sublist (names : List Text) (available : Entries Text Parameter) :
    (names.foldl leftBy available).Sublist available := by
  induction names generalizing available with
  | nil => exact List.Sublist.refl _
  | cons name names ih => exact (ih _).trans (leftBy_sublist available name)

theorem Reads.after_available (h : Reads context pass e rest r consumed noted) :
    (r.after noted pass).available = leftBy pass.available e.text := by
  have hfound : pass.found e.text = if e.text.isEmpty then []
      else Parameter.matching e.text (pass.available.map (·.2)) := rfl
  cases h with
  | declared hone _ =>
    rw [hfound] at hone
    split at hone
    · cases hone
    · rename_i htext
      rw [leftBy, if_neg htext, hone]
      rfl
  | member hnone _ | unknown hnone _ _ =>
    rw [leftBy]
    split
    · rfl
    · rename_i htext
      rw [hfound, if_neg htext] at hnone
      rw [hnone]
      rfl
  | ambiguous hseveral _ =>
    rw [leftBy]
    split
    · rfl
    · rename_i htext
      rw [hfound, if_neg htext] at hseveral
      rw [hseveral]
      rfl

namespace Pass

theorem anchorAt_available (context : Context) (index nameSpan consumed : Nat) (key : Text)
    (pass : Pass) :
    (pass.anchorAt context index nameSpan consumed key).available = pass.available := by
  unfold anchorAt
  split
  · split <;> rfl
  · rfl

theorem run_available (context : Context) (index : Nat) (rest : List Element) (pass : Pass) :
    (run context index 0 rest pass).available =
      (typedNames rest).foldl leftBy pass.available := by
  match rest with
  | [] => rfl
  | e :: rest =>
    cases he : e.isParameter with
    | false =>
      rw [run_value he, run_available context (index + 1) rest, typedNames, typedNames,
        List.filter_cons_of_neg (by simp [he])]
      rfl
    | true =>
      obtain ⟨r, consumed, noted, hr⟩ := exists_reads context pass e rest
      rw [run_parameter he hr, run_available context _ (rest.drop consumed), anchorAt_available,
        hr.after_available, typedNames, typedNames, hr.filter_drop, List.filter_cons_of_pos he]
      rfl
termination_by rest.length
decreasing_by
  · simp
  · simp only [List.length_drop, List.length_cons]
    omega

end Pass

theorem gathered_available_eq (declared : List Parameter) (types : Option TypeRegistry)
    (elements : List Element) : (gathered declared types elements).available =
      (typedNames (elements.drop 1)).foldl leftBy (Pass.start declared).available :=
  Pass.run_available _ 1 _ _

theorem mem_declared_of_gathered {types : Option TypeRegistry} {elements : List Element}
    (hn : (declared.map fun p => Text.lower p.name).Nodup)
    (h : p ∈ (gathered declared types elements).available.map (·.2)) : p ∈ declared := by
  rw [gathered_available_eq] at h
  exact (Pass.parted_start hn).mem_of_available
    (((foldl_leftBy_sublist _ _).map (·.2)).subset h)

theorem typedNames_append (elements others : List Element) :
    typedNames (elements ++ others) = typedNames elements ++ typedNames others := by
  simp [typedNames]

theorem mem_available_of_bind (hb : before ≠ []) {cursor : Int}
    (h : p ∈ (bind (before ++ tail) cursor declared types).available) :
    p ∈ (gathered declared types before).available.map (·.2) := by
  have herased (pairs : List (Parameter × Nat × Argument)) (all : Entries Text Parameter) :
      (pairs.foldl (fun all pair => all.erase (Text.lower pair.1.name)) all).Sublist all := by
    induction pairs generalizing all with
    | nil => exact List.Sublist.refl _
    | cons pair pairs ih => exact (ih _).trans List.filter_sublist
  obtain ⟨a, hrun⟩ := exists_anchor (before ++ tail) cursor declared types
  rw [bind, hrun] at h
  have hgathered := ((herased _ _).map fun entry : Text × Parameter => entry.2).subset h
  obtain ⟨command, rest, rfl⟩ := List.exists_cons_of_ne_nil hb
  have hall : (gathered declared types (command :: rest ++ tail)).available =
      (typedNames tail).foldl leftBy (gathered declared types (command :: rest)).available := by
    rw [gathered_available_eq, gathered_available_eq, List.cons_append, List.drop_one,
      List.drop_one, List.tail_cons, List.tail_cons, typedNames_append, List.foldl_append]
  rw [hall] at hgathered
  exact ((foldl_leftBy_sublist _ _).map _).subset hgathered

theorem Steps.before_parameter (declared : List Parameter) (types : Option TypeRegistry)
    (hx : x.isParameter = true) (tail : List Element) (index : Nat) (rest : List Element)
    (pass : Pass) :
    Steps ⟨declared, types, none⟩ ⟨index, rest ++ x :: tail, pass⟩
      ⟨index + rest.length, x :: tail, Pass.run ⟨declared, types, none⟩ index 0 rest pass⟩ := by
  match rest with
  | [] => exact .refl
  | e :: rest =>
    cases he : e.isParameter with
    | false =>
      have ih := before_parameter declared types hx tail (index + 1) rest
        (pass.takeValue ⟨declared, types, none⟩ index e)
      rw [Pass.run_value he, List.length_cons, ← Nat.add_assoc, Nat.add_right_comm]
      exact .head (.value he) ih
    | true =>
      obtain ⟨r, consumed, noted, hr⟩ := exists_reads ⟨declared, types, none⟩ pass e rest
      have hle := hr.consumed_le
      have ih := before_parameter declared types hx tail (index + 1 + consumed)
        (rest.drop consumed) (r.after noted pass)
      have hindex : index + 1 + consumed + (rest.drop consumed).length =
          index + (e :: rest).length := by
        rw [List.length_drop, List.length_cons]
        omega
      rw [hindex, ← List.drop_append_of_le_length hle] at ih
      rw [Pass.run_parameter he hr, Pass.anchorAt_none]
      exact .head (.parameter he (hr.before_parameter hx tail)) ih
termination_by rest.length
decreasing_by
  all_goals
    simp only [List.length_drop, List.length_cons]
    omega

theorem steps_to_parameter (declared : List Parameter) (types : Option TypeRegistry)
    (hb : before ≠ []) (hx : x.isParameter = true) (tail : List Element) :
    Steps ⟨declared, types, none⟩ (.first declared (before ++ x :: tail))
      ⟨before.length, x :: tail, gathered declared types before⟩ := by
  obtain ⟨command, rest, rfl⟩ := List.exists_cons_of_ne_nil hb
  have hsteps := Steps.before_parameter declared types hx tail 1 rest (Pass.start declared)
  rwa [Nat.add_comm] at hsteps

theorem gathered_to_parameter (declared : List Parameter) (types : Option TypeRegistry)
    (hb : before ≠ []) (hx : x.isParameter = true)
    (tail : List Element) :
    gathered declared types (before ++ x :: tail) =
        Pass.run ⟨declared, types, none⟩ before.length 0 (x :: tail)
          (gathered declared types before) ∧
      readings declared types (before ++ x :: tail) = readings declared types before ++
        Pass.readings ⟨declared, types, none⟩ before.length 0 (x :: tail)
          (gathered declared types before) := by
  obtain ⟨command, rest, rfl⟩ := List.exists_cons_of_ne_nil hb
  have hrun := Pass.run_before_parameter declared types hx tail 1 rest (Pass.start declared)
  rwa [Nat.add_comm] at hrun

theorem bind_inUse_of_parameter (hb : before ≠ []) (hx : x.isParameter = true) {cursor : Int}
    (hc : Element.indexAt? (before ++ x :: tail) cursor = some before.length)
    (hr : Reads ⟨declared, types, none⟩ (gathered declared types before) x tail r consumed noted) :
    (bind (before ++ x :: tail) cursor declared types).inUse = some (.name r.key) :=
  bind_inUse_of_claimed hc
    (.intro (steps_to_parameter declared types hb hx tail) hx hr (Nat.le_refl _)
      (Nat.le_add_right ..))

theorem misnamed_offset (context : Context) (pass : Pass) (typed : Text) (found : List Parameter)
    (offset : Nat) : ∀ d ∈ misnamed context pass typed found offset, d.offset = some offset := by
  unfold misnamed
  dsimp only
  split
  · simp
  · split
    · simp
    · split <;> simp

theorem Reads.noted_offset (h : Reads context pass e rest r consumed noted) :
    ∀ d ∈ noted, ∃ y ∈ e :: rest, d.offset = some y.start := by
  have hmerged {merged : Option AttachedMatch} {noted : List Diagnostic}
      (h : Owner.merge context.types e rest.head? rest[1]? = (merged, noted)) :
      ∀ d ∈ noted, ∃ y ∈ e :: rest, d.offset = some y.start := by
    intro d hd
    have hnoted := @Owner.merge_noted context.types e rest.head? rest[1]? d (by rw [h]; exact hd)
    rcases hnoted with hoffset | ⟨v, hv, hoffset⟩
    · exact ⟨e, List.mem_cons_self, hoffset⟩
    · exact ⟨v, List.mem_cons_of_mem e (List.mem_of_getElem? hv), hoffset⟩
  cases h with
  | declared => simp
  | member _ hmerge => exact hmerged hmerge
  | unknown _ hmerge _ =>
    intro d hd
    rcases List.mem_append.mp hd with hd | hd
    · exact hmerged hmerge d hd
    · exact ⟨e, List.mem_cons_self, misnamed_offset _ _ _ _ _ d hd⟩
  | ambiguous => exact fun d hd => ⟨e, List.mem_cons_self, misnamed_offset _ _ _ _ _ d hd⟩

theorem Pass.exists_reads_of_noted (declared : List Parameter) (types : Option TypeRegistry)
    (index : Nat) (rest : List Element) (pass : Pass) :
    ∀ d ∈ (run ⟨declared, types, none⟩ index 0 rest pass).errors, d ∈ pass.errors ∨
      ∃ before e behind r consumed noted, e :: behind <:+ rest ∧
        Reads ⟨declared, types, none⟩ before e behind r consumed noted ∧ d ∈ noted := by
  match rest with
  | [] => exact fun d hd => .inl hd
  | e :: rest =>
    cases he : e.isParameter with
    | false =>
      have ih := exists_reads_of_noted declared types (index + 1) rest
        (pass.takeValue ⟨declared, types, none⟩ index e)
      rw [run_value he]
      exact fun d hd => (ih d hd).imp id fun ⟨before, x, behind, r, consumed, noted, hx, hr⟩ =>
        ⟨before, x, behind, r, consumed, noted, hx.trans (List.suffix_cons e rest), hr⟩
    | true =>
      obtain ⟨r, consumed, noted, hr⟩ := exists_reads ⟨declared, types, none⟩ pass e rest
      have ih := exists_reads_of_noted declared types (index + 1 + consumed) (rest.drop consumed)
        (r.after noted pass)
      rw [run_parameter he hr, anchorAt_none]
      intro d hd
      rcases ih d hd with hd | ⟨before, x, behind, r', consumed', noted', hx, hr'⟩
      · rw [Reading.after_errors] at hd
        exact (List.mem_append.mp hd).imp id fun hd =>
          ⟨pass, e, rest, r, consumed, noted, List.suffix_refl _, hr, hd⟩
      · exact .inr ⟨before, x, behind, r', consumed', noted',
          (hx.trans (List.drop_suffix consumed rest)).trans (List.suffix_cons e rest), hr'⟩
termination_by rest.length
decreasing_by
  all_goals
    simp only [List.length_drop, List.length_cons]
    omega

theorem Pass.run_errors (declared : List Parameter) (types : Option TypeRegistry) (index : Nat)
    (rest : List Element) (pass : Pass) :
    ∀ d ∈ (run ⟨declared, types, none⟩ index 0 rest pass).errors,
      d ∈ pass.errors ∨ ∃ y ∈ rest, d.offset = some y.start := by
  intro d hd
  rcases exists_reads_of_noted declared types index rest pass d hd with
    hd | ⟨before, e, behind, r, consumed, noted, he, hr, hd⟩
  · exact .inl hd
  · obtain ⟨y, hy, hoffset⟩ := hr.noted_offset d hd
    exact .inr ⟨y, he.subset hy, hoffset⟩

section Kept

variable (hn : (declared.map fun p => Text.lower p.name).Nodup)
  (hd : ∀ p ∈ declared, '.' ∉ p.name) {y z : Place}

theorem Pass.Parted.name_ne (h : pass.Parted declared)
    (hget : pass.named.get? p.name = some value) {q : Parameter}
    (hq : q ∈ pass.available.map (·.2)) : p.name ≠ q.name := by
  rw [h.available, Pass.keyed_map_snd] at hq
  intro he
  have hfree := of_decide_eq_true (List.mem_filter.mp hq).2
  exact hfree (he ▸ Entries.isSome_get?.mp (Option.isSome_iff_exists.mpr ⟨value, hget⟩))

include hd in
/-- A declared parameter keeps its value over a step: a member has a key with a point. -/
theorem Step.keeps (h : Step context y z) (hy : y.pass.Parted declared) (hp : p ∈ declared)
    (hget : y.pass.named.get? p.name = some value) :
    z.pass.named.get? p.name = some value := by
  cases h with
  | value => exact hget
  | parameter _ hr =>
    cases hr with
    | @declared q v _ hfound _ =>
      have hq : q ∈ _ := Pass.found_mem (p := q) (by rw [hfound]; simp)
      exact (Entries.get?_set_ne _ _ (hy.name_ne hget hq)).trans hget
    | @member m =>
      have hpoint : p.name ≠ m.name := fun he =>
        hd p hp (he ▸ by simp [AttachedMatch.name])
      exact (Entries.get?_set_ne _ _ hpoint).trans hget
    | unknown | ambiguous => exact hget

include hn hd in
theorem Steps.keeps (h : Steps context y z) (hy : y.pass.Parted declared) (hp : p ∈ declared)
    (hget : y.pass.named.get? p.name = some value) :
    z.pass.Parted declared ∧ z.pass.named.get? p.name = some value := by
  induction h with
  | refl => exact ⟨hy, hget⟩
  | tail _ hstep ih => exact ⟨hstep.parted hn hd ih.1, hstep.keeps hd ih.1 hp ih.2⟩

theorem Pass.Parted.finish_named (h : pass.Parted declared)
    (hget : pass.named.get? p.name = some value) (cursorElement : Option Element)
    (a : Option Anchor) :
    (Pass.finish cursorElement { pass with anchor := a }).named.get? p.name = some value := by
  rw [Pass.finish_named, Entries.get?_update_of_notMem]
  · exact hget
  · rw [List.map_map]
    intro hmem
    obtain ⟨pair, hpair, hname⟩ := List.mem_map.mp hmem
    exact h.name_ne hget (@Pass.mem_of_mem_placed pass pair hpair) hname.symm

include hn hd in
theorem bind_named_of_parameter (hb : before ≠ []) (hx : x.isParameter = true) (hp : p ∈ declared)
    (hr : Reads ⟨declared, types, none⟩ (gathered declared types before) x tail
      (.declared p value) consumed noted) (cursor : Int) :
    (bind (before ++ x :: tail) cursor declared types).named.get? p.name = some value := by
  have hfront := steps_to_parameter declared types hb hx tail
  have hbefore := Steps.parted hn hd hfront (Pass.parted_start hn)
  have hstep := @Step.parameter ⟨declared, types, none⟩ before.length _ _ _ _ _ _ hx hr
  obtain ⟨z, hz, hend⟩ := exists_end ⟨declared, types, none⟩ ⟨before.length + 1 + consumed,
    tail.drop consumed, (Reading.declared p value).after noted (gathered declared types before)⟩
  obtain ⟨hparted, hget⟩ := Steps.keeps hn hd hz (hstep.parted hn hd hbefore) hp
    (Entries.get?_set_self ..)
  obtain ⟨cursorElement, a, hbind⟩ := bind_eq_of_end (hfront.trans (.head hstep hz)) hend cursor
  rw [hbind]
  exact hparted.finish_named hget cursorElement a

end Kept

theorem bind_errors_of_parameter (hb : before ≠ []) (hx : x.isParameter = true)
    (hstarts : (before ++ x :: tail).Pairwise fun first second => first.start < second.start)
    (hr : Reads ⟨declared, types, none⟩ (gathered declared types before) x tail
      (.declared p value) consumed []) (cursor : Int) :
    ∀ d ∈ (bind (before ++ x :: tail) cursor declared types).errors, d.offset ≠ some x.start := by
  obtain ⟨-, hbehind, hfront⟩ := List.pairwise_append.mp hstarts
  have hbehind := (List.pairwise_cons.mp hbehind).1
  obtain ⟨a, hrun⟩ := exists_anchor (before ++ x :: tail) cursor declared types
  have herrors : (bind (before ++ x :: tail) cursor declared types).errors =
      (gathered declared types (before ++ x :: tail)).errors := by
    rw [bind, hrun]
    rfl
  rw [herrors, (gathered_to_parameter declared types hb hx tail).1, Pass.run_parameter hx hr,
    Pass.anchorAt_none]
  intro d hd hoffset
  rcases Pass.run_errors _ _ _ _ _ d hd with hd | ⟨y, hy, hsame⟩
  · rw [Reading.after_errors, List.append_nil] at hd
    rcases Pass.run_errors _ _ _ _ _ d hd with hd | ⟨y, hy, hsame⟩
    · cases hd
    · have := hfront y (List.mem_of_mem_drop hy) x List.mem_cons_self
      have : y.start = x.start := Option.some.inj (hsame.symm.trans hoffset)
      omega
  · have := hbehind y (List.mem_of_mem_drop hy)
    have : y.start = x.start := Option.some.inj (hsame.symm.trans hoffset)
    omega

/-- A parameter that is typed in full is read as itself just when nothing in front has claimed it.
Then it is bound to what it is read with, and nothing is noted of it. -/
theorem bind_full_name (types : Option TypeRegistry) (hd : Parameter.Apart declared)
    (hpoint : ∀ q ∈ declared, '.' ∉ q.name)
    (hb : before ≠ []) (hx : x.isParameter = true) (hp : p ∈ declared) (htext : x.text = p.name)
    (hname : p.name ≠ [])
    (hstarts : (before ++ x :: tail).Pairwise fun first second => first.start < second.start) :
    ∃ r more, readings declared types (before ++ x :: tail) =
        readings declared types before ++ r :: more ∧
      ((∃ v, r = .declared p v) ↔ p ∈ (gathered declared types before).available.map (·.2)) ∧
      ∀ v, r = .declared p v → ∀ cursor,
        let b := bind (before ++ x :: tail) cursor declared types
        b.named.get? p.name = some v ∧ ∀ d ∈ b.errors, d.offset ≠ some x.start := by
  obtain ⟨r, consumed, noted, hr⟩ := exists_reads ⟨declared, types, none⟩
    (gathered declared types before) x tail
  have hreadings := (gathered_to_parameter declared types hb hx tail).2
  rw [Pass.readings, if_pos hx, hr.read_eq] at hreadings
  have hn := hd.nodup_lower_names
  refine ⟨r, _, hreadings, ⟨?_, fun havailable => ?_⟩, ?_⟩
  · rintro ⟨v, rfl⟩
    cases hr with
    | declared hfound _ => exact Pass.found_mem (by rw [hfound]; exact List.mem_singleton_self p)
  · have hparted := Steps.parted hn hpoint
      (steps_to_parameter declared types hb hx tail)
      (Pass.parted_start hn)
    have hleft : Parameter.Apart ((gathered declared types before).available.map (·.2)) := by
      rw [hparted.available, Pass.keyed_map_snd]
      exact hd.sublist List.filter_sublist
    have hfound : (gathered declared types before).found x.text = [p] := by
      rw [Pass.found, if_neg (by rw [htext]; simpa using hname)]
      exact hleft.matching_eq havailable (htext ▸ Parameter.isNamed_name p)
    have hread := hr.read_eq
    rw [(@Reads.declared ⟨declared, types, none⟩ _ _ _ _ _ _ hfound rfl).read_eq] at hread
    exact ⟨_, (Prod.mk.inj hread).1.symm⟩
  · rintro v rfl cursor
    have hnoted : noted = [] := by
      cases hr
      rfl
    subst hnoted
    exact ⟨bind_named_of_parameter hn hpoint hb hx hp hr cursor,
      bind_errors_of_parameter hb hx hstarts hr cursor⟩

end Binding

end CommandShell
