import CommandShell.Proofs.Binding.Front
import CommandShell.Proofs.Binding.Keywords
import CommandShell.Proofs.Completion.Pair
import CommandShell.Proofs.Owner.Kind

/-!
The members that are offered for a parameter and the word that touches it, and what the line is
bound to once one of them has taken the place of the two.
-/

set_option autoImplicit false

namespace CommandShell

namespace Entries

variable {κ α : Type} [DecidableEq κ]

def addTo (key : α → κ) (groups : Entries κ (List α)) (a : α) : Entries κ (List α) :=
  groups.set (key a) ((groups.get? (key a)).getD [] ++ [a])

theorem nodup_keys_foldl_addTo (key : α → κ) (as : List α) {groups : Entries κ (List α)}
    (h : (groups.map (·.1)).Nodup) : ((as.foldl (addTo key) groups).map (·.1)).Nodup := by
  induction as generalizing groups with
  | nil => exact h
  | cons a as ih => exact ih (nodup_keys_set h _ _)

theorem get?_foldl_addTo (key : α → κ) (as : List α) (groups : Entries κ (List α)) (k : κ) :
    ((as.foldl (addTo key) groups).get? k).getD [] =
      (groups.get? k).getD [] ++ as.filter fun a => key a = k := by
  induction as generalizing groups with
  | nil => simp
  | cons a as ih =>
    rw [List.foldl_cons, ih, addTo]
    by_cases hk : key a = k
    · subst hk
      simp
    · rw [get?_set_ne _ _ (Ne.symm hk), List.filter_cons_of_neg (by simpa using hk)]

theorem eq_filter_of_mem_foldl_addTo (key : α → κ) {as : List α} {entry : κ × List α}
    (h : entry ∈ as.foldl (addTo key) []) : entry.2 = as.filter fun a => key a = entry.1 := by
  have hnodup : ((as.foldl (addTo key) []).map (·.1)).Nodup :=
    nodup_keys_foldl_addTo key as List.nodup_nil
  have hget := (get?_eq_some_iff hnodup).mpr h
  have hall := get?_foldl_addTo key as [] entry.1
  rwa [hget, get?_nil, Option.getD_some, Option.getD_none, List.nil_append] at hall

end Entries

namespace Completion

open Owner Binding

variable {σ : Type} {context : Context σ} {line : Text} {x : Candidate} {owner : OwnerType}
  {before : List Element} {previous e : Element}

theorem mem_memberPool {typed separator : Text} {entry : PoolEntry}
    (h : entry ∈ memberPool owner typed separator) : ∃ m ∈ owner.members,
      entry.insertion = .ok ('-' :: (typed ++ (separator ++ owner.offered m))) := by
  obtain ⟨group, hgroup, hentry⟩ := List.mem_flatMap.mp h
  obtain ⟨m, hm, rfl⟩ := List.mem_map.mp hentry
  have hmembers : group.2 = owner.members.filter fun m => Text.lower m.name = group.1 :=
    Entries.eq_filter_of_mem_foldl_addTo (fun m : Attachable => Text.lower m.name) hgroup
  rw [hmembers] at hm
  obtain ⟨hin, hname⟩ := List.mem_filter.mp hm
  have hnamed : group.2 = owner.named m.name := by
    rw [hmembers, ← of_decide_eq_true hname]
    rfl
  refine ⟨m, hin, ?_⟩
  simp only [PoolEntry.insertion, PoolEntry.value, Datum.print, OwnerType.offered,
    OwnerType.shares, hnamed, decide_eq_true_eq, gt_iff_lt, List.cons_append, List.append_assoc]

/-- What is offered for the pair is the full spelling of a member, with what is typed of it in front
of the last separator as its owner. -/
theorem memberNames_offers {length : Nat} (hend : line.length ≤ e.start + length)
    (h : x ∈ (memberNames context line previous e length line.length).candidates) :
    ∃ o typed sep owner, splitName? (previous.text ++ line.drop e.start) = some (o, typed) ∧
      sep ∈ separators ∧ context.types.resolve o = some owner ∧
      ∃ m ∈ owner.members, x.insertion = '-' :: (o ++ (sep ++ owner.offered m)) := by
  have hslice : Text.slice line e.start (min line.length (e.start + length)) =
      line.drop e.start := by
    rw [Nat.min_eq_left hend, Text.slice, List.take_length]
  revert h
  fun_cases memberNames context line previous e length line.length with
  | case1 | case2 => rintro ⟨⟩
  | case3 stop span typed o last hsplit owner hresolve separator =>
    intro h
    obtain ⟨candidates, hranked, hx⟩ := mem_offering rfl h
    obtain ⟨-, entry, hentry, text, htext, hinsertion⟩ := Ranking.exists_of_mem_rank hranked hx
    obtain ⟨m, hm, heq⟩ := mem_memberPool hentry
    obtain rfl := Except.ok.inj (heq.symm.trans htext)
    rw [if_neg (by simp)] at hinsertion
    have hseparator : separator ∈ separators := by
      simp only [separator]
      split <;> simp [separators]
    simp only [typed, stop, hslice] at hsplit
    exact ⟨o, last, separator, owner, hsplit, hseparator, hresolve, m, hm, hinsertion⟩

theorem withPool_category {span : ValueSpan} {pool : List PoolEntry} {quotes : Bool}
    {c : Completion} (hc : c.candidates = [])
    (h : x ∈ (withPool context span pool quotes c).candidates) : x.category = .parameterValue := by
  obtain ⟨candidates, hranked, hx⟩ := mem_offering hc h
  exact (Ranking.exists_of_mem_rank hranked hx).1

theorem values_category {command : Option (Command σ)} {b : Binding} {span : ValueSpan}
    (h : x ∈ (values context command b span).candidates) : x.category = .parameterValue := by
  revert h
  fun_cases values context command b span <;> intro h <;>
    first | cases h | exact withPool_category rfl h

theorem parameterNames_category {cursor : Nat} {command : Option (Command σ)} {b : Binding}
    (h : x ∈ (parameterNames context line e cursor command b).candidates) :
    x.category = .parameterName := by
  cases command with
  | none => cases h
  | some c =>
    obtain ⟨candidates, hranked, hx⟩ := mem_offering rfl h
    exact (Ranking.exists_of_mem_rank hranked hx).1

theorem commandNames_category {cursor : Nat}
    (h : x ∈ (commandNames context line e cursor).candidates) : x.category = .command := by
  obtain ⟨candidates, hranked, hx⟩ := mem_offering rfl h
  exact (Ranking.exists_of_mem_rank hranked hx).1

theorem helpTargets_category {cursor : Nat}
    (h : x ∈ (helpTargets context line e cursor).candidates) : x.category = .command := by
  obtain ⟨candidates, hranked, hx⟩ := mem_offering rfl h
  exact (Ranking.exists_of_mem_rank hranked hx).1

theorem argument_member {cursor : Nat} {elements : List Element} {command : Element}
    (h : x ∈ (argument context line cursor elements command previous e).candidates)
    (hx : x.category = .attachedMember) :
    ∃ length, touchingName? previous e = some length ∧ cursor ≤ e.start + length ∧
      x ∈ (memberNames context line previous e length cursor).candidates ∧
      (argument context line cursor elements command previous e).start = previous.start := by
  have hvalues {c : Option (Command σ)} {b : Binding} {span : ValueSpan} :
      x ∉ (values context c b span).candidates := fun h => by
    rw [values_category h] at hx
    cases hx
  simp only [argument] at h ⊢
  rw [← touchingName?] at h ⊢
  split at h
  · rename_i length hm
    split at h
    · rename_i hcursor
      refine ⟨length, hm, hcursor, h, ?_⟩
      simp only [if_pos hcursor]
      exact memberNames_start ..
    · exact absurd h hvalues
  · split at h
    · split at h
      · rw [parameterNames_category h] at hx
        cases hx
      · exact absurd h hvalues
    · exact absurd h hvalues

theorem exists_pair_of_offered (hx : x ∈ (complete context line line.length).candidates)
    (hcategory : x.category = .attachedMember) :
    ∃ before previous e length, elementsAt line line.length = before ++ [previous, e] ∧
      touchingName? previous e = some length ∧ line.length ≤ e.start + length ∧
      x ∈ (memberNames context line previous e length line.length).candidates ∧
      (complete context line line.length).start = previous.start := by
  obtain ⟨before, e, helements, hc, -⟩ := elementsAt_end line
  rcases complete_cases context helements hc with
    heq | ⟨command, previous, -, hlast, heq | heq⟩
  · rw [heq] at hx
    rw [commandNames_category hx] at hcategory
    cases hcategory
  · rw [heq] at hx
    rw [helpTargets_category hx] at hcategory
    cases hcategory
  · rw [heq] at hx ⊢
    obtain ⟨length, hname, hcursor, hoffered, hstart⟩ := argument_member hx hcategory
    obtain ⟨front, rfl⟩ := List.getLast?_eq_some_iff.mp hlast
    exact ⟨front, previous, e, length, by rw [helements, List.append_assoc]; rfl, hname, hcursor,
      hoffered, hstart⟩

theorem complete_of_touching (context : Context σ) {length : Nat}
    (helements : elementsAt line line.length = before ++ [previous, e]) (hb : before ≠ [])
    (htouching : touchingName? previous e = some length) (hend : line.length ≤ e.start + length) :
    ∃ noted, complete context line line.length =
      { memberNames context line previous e length line.length with diagnostics := noted } := by
  obtain ⟨front, last, hfront, hc, -⟩ := elementsAt_end line
  rw [List.append_cons] at helements
  obtain ⟨rfl, hlast⟩ := List.append_inj' (helements.symm.trans hfront) rfl
  obtain rfl := (List.cons.inj hlast).1
  obtain ⟨command, rest, rfl⟩ := List.exists_cons_of_ne_nil hb
  rw [complete_eq context helements hc, List.getLast?_concat, List.cons_append, List.head?_cons]
  dsimp only
  rw [if_neg (by simp), argument, ← touchingName?, htouching]
  simp only [if_pos hend]
  exact ⟨_, rfl⟩

/-- The full spelling of a member can be read where it is put: the pattern for such spellings reads
both names, and the dash in front is no part of what is before it. -/
structure Readable (line : Text) (start : Nat) (o name : Text) : Prop where
  owner : isPath o = true
  member : isName name = true
  dash : (line.drop start).head? = some '-' ∨ Sealed (line.take start)

theorem lastElements_accept_pair {length count : Nat} {o sep : Text} {m : Attachable}
    (helements : elementsAt line line.length = before ++ [previous, e])
    (htouching : touchingName? previous e = some length) (hend : line.length ≤ e.start + length)
    (hcount : line.length ≤ previous.start + count)
    (hreadable : Readable line previous.start o m.name) (hsep : sep ∈ separators)
    (owner : OwnerType) :
    ∃ parameter adjacent : Element,
      lastElements (accept line previous.start count ('-' :: (o ++ (sep ++ owner.offered m)))) =
        before ++ [parameter, adjacent] ∧
      Touches parameter adjacent (o ++ (sep ++ owner.offered m)) ∧ parameter.text = lead o := by
  obtain ⟨front, t, u, hpair, rfl⟩ := exists_pair_of_touching helements htouching hend
  obtain rfl := hpair.name
  rw [accept_of_stop hcount]
  exact lastElements_replace_pair hpair.tokens hreadable.dash hreadable.owner hsep
    (isName_offered hreadable.member)

/-- The spelling of a member that is offered leads to that member: no parameter that is still
available begins like the owner, and no other member has the name with its kind as a name. -/
def Leads (declared : List Parameter) (types : TypeRegistry) (before : List Element) (o : Text)
    (owner : OwnerType) (m : Attachable) : Prop :=
  (gathered declared (some types) before).found (lead o) = [] ∧
    (owner.shares m = true → owner.named (m.name ++ m.kind.label) = [])

/-- Every member that is offered is offered by its full spelling, in the place of the pair at the
end of the line. Where this can be read there, it is read as that member just when it leads to it. -/
theorem complete_member (hx : x ∈ (complete context line line.length).candidates)
    (hcategory : x.category = .attachedMember)
    (hdistinct : ∀ owner ∈ context.types.all, owner.Distinct) :
    let c := complete context line line.length
    let new := accept line c.start c.length x.insertion
    ∃ before previous e o typed sep owner,
      elementsAt line line.length = before ++ [previous, e] ∧
      c.start = previous.start ∧ c.start + c.length = line.length ∧
      splitName? (previous.text ++ line.drop e.start) = some (o, typed) ∧
      sep ∈ separators ∧ context.types.resolve o = some owner ∧
      (∃ m ∈ owner.members, x.insertion = '-' :: (o ++ (sep ++ owner.offered m))) ∧
      ∀ m ∈ owner.members, x.insertion = '-' :: (o ++ (sep ++ owner.offered m)) →
        Readable line c.start o m.name → ∀ (command : Element) (declaring : Command σ),
          before.head? = some command → context.registry.get? command.text = some declaring →
          ∃ parameter adjacent r, lastElements new = before ++ [parameter, adjacent] ∧
            readings declaring.parameters (some context.types) (lastElements new) =
              readings declaring.parameters (some context.types) before ++ [r] ∧
            ((∃ a, r = .member a ∧ a.owner = owner ∧ a.member = m) ↔
              Leads declaring.parameters context.types before o owner m) ∧
            ∀ a, r = .member a → ∀ cursor,
              (lastBinding context new cursor).attached.get? a.name = some a := by
  intro c new
  obtain ⟨before, previous, e, length, helements, htouching, hend, hoffered, hstart⟩ :=
    exists_pair_of_offered hx hcategory
  have hspans := spans_complete context line line.length
  rw [Int.toNat_natCast, Nat.min_self] at hspans
  have hlength : c.start + c.length = line.length := Nat.le_antisymm hspans.stop_le hspans.le_stop
  obtain ⟨o, typed, sep, owner, hsplit, hsep, hresolve, hmember⟩ :=
    memberNames_offers hend hoffered
  refine ⟨before, previous, e, o, typed, sep, owner, helements, hstart, hlength, hsplit, hsep,
    hresolve, hmember, fun m hm hinsertion hreadable command declaring hhead hget => ?_⟩
  have hspelled : isName (owner.offered m) = true := isName_offered hreadable.member
  obtain ⟨parameter, adjacent, hpair, htouches, htext⟩ :=
    lastElements_accept_pair helements htouching hend (hstart ▸ Nat.le_of_eq hlength.symm)
      (hstart ▸ hreadable) hsep owner
  rw [← hinsertion, ← hstart] at hpair
  have hb : before ≠ [] := by
    rintro rfl
    cases hhead
  have hwhole := split?_append hreadable.owner hsep hspelled none fun _ => rfl
  rw [behind, List.append_nil] at hwhole
  obtain ⟨r, hreadings, hiff, hattached⟩ := bind_pair hb htouches hwhole hresolve
  refine ⟨parameter, adjacent, r, hpair, by rw [hpair, hreadings], ?_, ?_⟩
  · have howner := hdistinct owner (TypeRegistry.mem_all_of_resolve hresolve)
    rw [hiff, htext, Leads, findMember_offered howner hm hreadable.member]
  · intro a ha cursor
    have hdescribe : context.registry.describe command.text = .ok declaring.parameters := by
      simp only [Registry.describe, hget]
    have hheads : (lastElements new).head? = some command := by
      rw [hpair, List.head?_append, hhead]
      rfl
    rw [lastBinding, bindInvocation_eq hheads hdescribe, hpair]
    exact hattached a ha cursor

def goContext (types : TypeRegistry) : Context (Unit × List Call) :=
  ⟨(Registry.empty.register (Session.go [])).1, types, [], ((), []), .whole 1, 50⟩

theorem complete_member_validation :
    let c := complete (goContext Layout.types) "Go -Validation.ErrorE".toList 21
    c.candidates.map (fun x => (x.insertion, x.category)) =
        [("-Validation.ErrorEvent".toList, .attachedMember)] ∧
      ∃ a : AttachedMatch, (lastBinding (goContext Layout.types)
        (accept "Go -Validation.ErrorE".toList c.start c.length "-Validation.ErrorEvent".toList)
          25).attached.get? a.name = some a ∧ a.owner.name = "Validation".toList ∧
            a.member = ⟨"Error".toList, .event, .script⟩ := by
  intro c
  have hcandidates : c.candidates.map (fun x => (x.insertion, x.category)) =
      [("-Validation.ErrorEvent".toList, .attachedMember)] := by decide +kernel
  refine ⟨hcandidates, ?_⟩
  obtain ⟨x, hx, hpair⟩ := List.mem_map.mp (hcandidates ▸ List.mem_cons_self)
  obtain ⟨hinsertion, hcategory⟩ := Prod.mk.inj hpair
  have hdistinct : ∀ owner ∈ (goContext Layout.types).types.all, owner.Distinct := by
    decide +kernel
  obtain ⟨before, previous, e, o, typed, sep, owner, helements, -, -, hsplit, hsep, hresolve,
    hmember, hall⟩ := @complete_member _ _ "Go -Validation.ErrorE".toList x hx hcategory hdistinct
  rw [hinsertion] at hmember hall
  have hline : elementsAt "Go -Validation.ErrorE".toList 21 =
      [.value [⟨.bare, "Go".toList, "Go".toList, 0, none, true⟩] 0 2] ++
        [.parameter ⟨.parameter, "-Validation".toList, "Validation".toList, 3, none, true⟩ 14,
          .value [⟨.bare, ".ErrorE".toList, ".ErrorE".toList, 14, none, true⟩] 14 21] := by
    decide +kernel
  obtain ⟨rfl, hends⟩ := List.append_inj' (helements.symm.trans hline) rfl
  obtain ⟨rfl, rfl⟩ : previous = _ ∧ e = _ := by simpa using hends
  have ho : splitName? "Validation.ErrorE".toList =
      some ("Validation".toList, "ErrorE".toList) := by decide +kernel
  obtain ⟨rfl, -⟩ := Prod.mk.inj (Option.some.inj (hsplit.symm.trans ho))
  let validation := (Layout.owners.getLast (by decide)).1
  let error : Attachable := ⟨"Error".toList, .event, .script⟩
  have hvalidation : Layout.types.resolve "Validation".toList = some validation := rfl
  obtain rfl : owner = validation := Option.some.inj (hresolve.symm.trans hvalidation)
  obtain rfl : sep = ['.'] := by
    simp only [separators, List.mem_cons, List.not_mem_nil, or_false] at hsep
    refine hsep.resolve_right ?_
    rintro rfl
    obtain ⟨m, -, heq⟩ := hmember
    simp at heq
  obtain ⟨-, -, r, -, -, hread, hattached⟩ := hall error
    (List.mem_of_getElem? (rfl : validation.members[2]? = some error)) (by decide +kernel)
    ⟨by decide +kernel, by decide +kernel, .inl (by decide +kernel)⟩ _ _ rfl
    (Registry.get?_register rfl)
  obtain ⟨a, rfl, howner, herror⟩ :=
    hread.mpr ⟨List.isEmpty_iff.mp (by decide +kernel), fun _ => by decide +kernel⟩
  exact ⟨a, hattached a rfl 25, by rw [howner]; decide +kernel, herror⟩

/-- An owner with a property and an event of one name, and a property that has this name with the
kind of the event behind it. -/
def kindOwner : OwnerType :=
  OwnerType.make ['V'] [] [("Error".toList, .text), ("errorevent".toList, .text)]
    [("Error".toList, .text)]

def kindTypes : TypeRegistry := (TypeRegistry.empty.register kindOwner []).1

/-- The event is offered with its kind, and with its kind it is the other property. -/
theorem complete_member_kind :
    let c := complete (goContext kindTypes) "Go -V.E".toList 7
    (∀ owner ∈ kindTypes.all, owner.Distinct) ∧
    (∃ x ∈ c.candidates, x.insertion = "-V.ErrorEvent".toList ∧ x.category = .attachedMember ∧
      x.tooltip = "Event [str]".toList) ∧
    accept "Go -V.E".toList c.start c.length "-V.ErrorEvent".toList =
      "Go -V.ErrorEvent".toList ∧
    (lastBinding (goContext kindTypes) "Go -V.ErrorEvent".toList 16).attached.map
      (fun entry => (entry.1, entry.2.member.kind)) = [("V.errorevent".toList, .property)] := by
  intro c
  have hline : elementsAt "Go -V.E".toList 7 =
      [.value [⟨.bare, "Go".toList, "Go".toList, 0, none, true⟩] 0 2] ++
        [.parameter ⟨.parameter, "-V".toList, ['V'], 3, none, true⟩ 5,
          .value [⟨.bare, ".E".toList, ".E".toList, 5, none, true⟩] 5 7] := by
    decide +kernel
  let pool := memberPool kindOwner ['V'] ['.']
  obtain ⟨noted, hc⟩ : ∃ noted, c = { (nothing 3 4).offering
      (Ranking.rank pool "-V.E".toList none .attachedMember false (some 50)) with
        diagnostics := noted } :=
    @complete_of_touching _ "Go -V.E".toList _ _ _ (goContext kindTypes) 2 hline
      (List.cons_ne_nil _ _) (by decide +kernel) (by decide +kernel)
  have hstart : c.start = 3 := by rw [hc, offering_start, nothing]
  have hlength : c.length = 4 := by rw [hc, offering_length, nothing]
  refine ⟨by decide +kernel, ?_, by rw [hstart, hlength]; decide +kernel, by decide +kernel⟩
  obtain ⟨candidates, hranked⟩ : ∃ candidates,
      Ranking.rank pool "-V.E".toList none .attachedMember false (some 50) = .ok candidates :=
    Ranking.rank_texts fun entry hentry => by
      obtain ⟨_, -, hentry⟩ := List.mem_flatMap.mp hentry
      obtain ⟨m, -, rfl⟩ := List.mem_map.mp hentry
      exact ⟨_, rfl⟩
  let shown := (Ranking.shown pool).toOption.getD []
  have hgroup : ((Ranking.groups "-V.E".toList shown).any fun g =>
      (Ranking.candidate .alphabetical .attachedMember false g).toOption =
        some ⟨"-V.ErrorEvent".toList, "-V.ErrorEvent".toList, .attachedMember,
          "Event [str]".toList⟩) = true := by
    decide +kernel
  obtain ⟨g, hg, hmade⟩ := List.any_eq_true.mp hgroup
  obtain ⟨x, hx, hcandidate⟩ := Ranking.mem_rank (rfl : Ranking.shown pool = .ok shown) hg
    (by rintro _ ⟨⟩; decide +kernel) hranked
  have halphabetical : Ranking.chosen "-V.E".toList none = .alphabetical := by decide +kernel
  have hevent := of_decide_eq_true hmade
  rw [halphabetical] at hcandidate
  rw [hcandidate] at hevent
  obtain rfl := Option.some.inj hevent
  exact ⟨_, by rw [hc, hranked]; exact hx, rfl, rfl, rfl⟩

end Completion

end CommandShell
