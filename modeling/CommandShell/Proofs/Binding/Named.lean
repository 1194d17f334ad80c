import CommandShell.Binding.Keywords
import CommandShell.Proofs.Element.Single
import Mathlib.Data.List.Nodup

/-!
Invocations that give every value by name: among parameters that share no name each one is found by
its own, and the binding passes on what was given and nothing else.
-/

set_option autoImplicit false

namespace CommandShell

namespace Parameter

def keys (p : Parameter) : List Text := p.names.map Text.lower

/-- No name is used twice, whatever the case. -/
def Distinct (ps : List Parameter) : Prop := (ps.flatMap keys).Nodup

theorem lower_name_mem_keys (p : Parameter) : Text.lower p.name ∈ p.keys := by
  simp [keys, names]

theorem lower_mem_keys_of_isNamed {p : Parameter} {typed : Text} (h : p.isNamed typed = true) :
    Text.lower typed ∈ p.keys := by
  simp only [isNamed, List.any_eq_true, decide_eq_true_eq] at h
  obtain ⟨name, hm, he⟩ := h
  exact he ▸ List.mem_map_of_mem hm

theorem isNamed_name (p : Parameter) : p.isNamed p.name = true := by
  simp [isNamed, names]

/-- No two of them share a name, whatever the case. -/
def Apart (ps : List Parameter) : Prop := ps.Pairwise fun p q => p.keys.Disjoint q.keys

theorem Distinct.apart {ps : List Parameter} (h : Distinct ps) : Apart ps :=
  (List.pairwise_flatMap.mp h).2.imp fun hne key hp hq => hne key hp key hq rfl

theorem Apart.sublist {ps qs : List Parameter} (h : Apart qs) (hs : ps.Sublist qs) : Apart ps :=
  List.Pairwise.sublist hs h

theorem Apart.filter_eq {ps : List Parameter} (h : Apart ps) {p : Parameter} (hp : p ∈ ps)
    {f : Parameter → Bool} (hf : f p = true) (key : Text)
    (hkeys : ∀ q, f q = true → key ∈ q.keys) : ps.filter f = [p] := by
  induction ps with
  | nil => cases hp
  | cons q ps ih =>
    obtain ⟨hapart, hps⟩ := List.pairwise_cons.mp h
    rcases List.mem_cons.mp hp with rfl | hm
    · have hnone : ps.filter f = [] := by
        refine List.filter_eq_nil_iff.mpr fun r hr hfr => ?_
        exact hapart r hr (hkeys p hf) (hkeys r hfr)
      rw [List.filter_cons_of_pos hf, hnone]
    · have hq : ¬ f q = true := fun hfq => hapart p hm (hkeys q hfq) (hkeys p hf)
      rw [List.filter_cons_of_neg hq, ih hps hm]

theorem Apart.matching_eq {ps : List Parameter} (h : Apart ps) {p : Parameter} (hp : p ∈ ps)
    {typed : Text} (ht : p.isNamed typed = true) : matching typed ps = [p] := by
  have hexact := h.filter_eq hp ht (Text.lower typed) fun _ => lower_mem_keys_of_isNamed
  simp only [matching, hexact]

theorem Apart.nodup_lower_names {ps : List Parameter} (h : Apart ps) :
    (ps.map fun p => Text.lower p.name).Nodup := by
  refine List.pairwise_map.mpr (h.imp fun {p q} hapart he => ?_)
  exact hapart p.lower_name_mem_keys (he ▸ q.lower_name_mem_keys)

theorem Apart.eq_of_lower_name {ps : List Parameter} (h : Apart ps) {p q : Parameter}
    (hp : p ∈ ps) (hq : q ∈ ps) (he : Text.lower p.name = Text.lower q.name) : p = q :=
  List.inj_on_of_nodup_map h.nodup_lower_names hp hq he

end Parameter

theorem Command.parameter?_name {σ : Type} {c : Command σ}
    (hn : (c.parameters.map fun p => Text.lower p.name).Nodup) {p : Parameter}
    (hp : p ∈ c.parameters) : c.parameter? p.name = some p := by
  cases hfound : c.parameter? p.name with
  | none => exact absurd (List.find?_eq_none.mp hfound p hp) (by simp)
  | some q =>
    have hname : Text.lower q.name = Text.lower p.name := by simpa using List.find?_some hfound
    rw [List.inj_on_of_nodup_map hn (List.mem_of_find?_eq_some hfound) hp hname]

namespace Binding

inductive Named : List (Parameter × Text) → List Token → Prop
  | nil : Named [] []
  | cons {g : Parameter × Text} {pairs : List (Parameter × Text)} {name value : Token}
      {ts : List Token}
      (hname : name.kind = .parameter ∧ name.value = g.1.name ∧ name.inline = none)
      (hvalue : value.IsArgument ∧ value.value = g.2) :
      Named pairs ts → Named (g :: pairs) (name :: value :: ts)

def arguments (pairs : List (Parameter × Text)) : Entries Text Argument :=
  pairs.map fun g => (g.1.name, .known (.text g.2))

theorem Named.isOperand {pairs : List (Parameter × Text)} {ts : List Token} (h : Named pairs ts) :
    ∀ t ∈ ts, t.IsOperand := by
  induction h with
  | nil => simp
  | cons hname hvalue _ ih =>
    simp only [List.mem_cons, forall_eq_or_imp]
    exact ⟨by simp [Token.IsOperand, hname.1], hvalue.1.isOperand, ih⟩

theorem valueAfter_named {name value : Token} (hn : name.inline = none)
    (hp : name.kind = .parameter) (hv : value.IsArgument) :
    valueAfter (Element.ofToken name) (some (Element.ofToken value)) false =
      (.known (.text value.value), 1) := by
  obtain ⟨hv, hr⟩ := hv.kind_ne
  simp [valueAfter, Element.ofToken, Element.inline, hn, hp, hv, hr, Element.isParameter, valueOf,
    Element.parts]

namespace Pass

def keyed (ps : List Parameter) : Entries Text Parameter := ps.map fun p => (Text.lower p.name, p)

theorem keyed_map_snd (ps : List Parameter) : (keyed ps).map (·.2) = ps := by
  simp [keyed, Function.comp_def]

theorem erase_keyed (ps : List Parameter) (key : Text) :
    (keyed ps).erase key = keyed (ps.filter fun p => Text.lower p.name ≠ key) := by
  simp only [keyed, Entries.erase, List.filter_map]
  rfl

theorem start_available {declared : List Parameter}
    (h : (declared.map fun p => Text.lower p.name).Nodup) :
    (start declared).available = keyed declared := by
  refine Entries.ofList_of_nodup ?_
  rw [List.map_map]
  exact h

open scoped Classical in
noncomputable def untaken (declared taken : List Parameter) : List Parameter :=
  declared.filter fun p => p ∉ taken

theorem mem_untaken {declared taken : List Parameter} {p : Parameter} :
    p ∈ untaken declared taken ↔ p ∈ declared ∧ p ∉ taken := by
  simp [untaken]

theorem untaken_nil (declared : List Parameter) : untaken declared [] = declared := by
  simp [untaken]

theorem untaken_sublist (declared taken : List Parameter) :
    (untaken declared taken).Sublist declared :=
  List.filter_sublist

theorem erase_untaken {declared : List Parameter}
    (hn : (declared.map fun p => Text.lower p.name).Nodup) {p : Parameter} (hp : p ∈ declared)
    (taken : List Parameter) :
    (keyed (untaken declared taken)).erase (Text.lower p.name) =
      keyed (untaken declared (taken ++ [p])) := by
  rw [erase_keyed, untaken, List.filter_filter]
  refine congrArg keyed (List.filter_congr fun q hq => ?_)
  -- names that are the same in lower case are those of one parameter
  have hsame : Text.lower q.name = Text.lower p.name ↔ q = p :=
    ⟨fun he => List.inj_on_of_nodup_map hn hq hp he, fun he => he ▸ rfl⟩
  refine Bool.eq_iff_iff.mpr ?_
  simp only [Bool.and_eq_true, decide_eq_true_eq, ne_eq, hsame, List.mem_append,
    List.mem_singleton, not_or, and_comm]

variable {context : Context} {left : List Parameter} {p : Parameter}

theorem takeParameter_named (hc : context.cursor = none) (index : Nat) {pass : Pass}
    (hl : pass.available = keyed left) (hd : Parameter.Apart left) (hp : p ∈ left)
    (hs : p.isSwitch = false) (ht : p.name ≠ []) {name value : Token}
    (hname : name.kind = .parameter ∧ name.value = p.name ∧ name.inline = none)
    (hvalue : value.IsArgument) (rest : List Element) :
    pass.takeParameter context index (Element.ofToken name) (Element.ofToken value :: rest) =
      ({ pass with
        available := pass.available.erase (Text.lower p.name)
        named := pass.named.set p.name (.known (.text value.value)) }, 1) := by
  have hfound : Parameter.matching p.name (pass.available.map (·.2)) = [p] := by
    rw [hl, keyed_map_snd]
    exact hd.matching_eq hp p.isNamed_name
  simp only [takeParameter, Element.ofToken_text, hname.2.1, List.isEmpty_eq_false_iff.mpr ht,
    Bool.false_eq_true, if_false, hfound, List.head?_cons, hs,
    valueAfter_named hname.2.2 hname.1 hvalue, anchorAt, hc]

theorem run_named (hc : context.cursor = none) {pairs : List (Parameter × Text)} {ts : List Token}
    (h : Named pairs ts) (index : Nat) {pass : Pass} (hl : pass.available = keyed left)
    (hd : Parameter.Apart left)
    (hp : ∀ g ∈ pairs, g.1 ∈ left ∧ g.1.isSwitch = false ∧ g.1.name ≠ [])
    (hn : (pairs.map (·.1)).Nodup) :
    run context index 0 (ts.map Element.ofToken) pass =
      { pass with
        available := pairs.foldl (fun all g => all.erase (Text.lower g.1.name)) pass.available
        named := pass.named.update (arguments pairs) } := by
  induction h generalizing index pass left with
  | nil => rfl
  | @cons g pairs name value ts hname hvalue h ih =>
    have hpair := hp g (by simp)
    rw [List.map_cons, List.nodup_cons] at hn
    -- what is left after the step still holds the parameters that are yet to come
    have hleft : ∀ k ∈ pairs,
        k.1 ∈ left.filter (fun p => Text.lower p.name ≠ Text.lower g.1.name) ∧
          k.1.isSwitch = false ∧ k.1.name ≠ [] := by
      intro k hk
      obtain ⟨hm, hrest⟩ := hp k (by simp [hk])
      refine ⟨List.mem_filter.mpr ⟨hm, decide_eq_true fun he => hn.1 ?_⟩, hrest⟩
      rw [← hd.eq_of_lower_name hm hpair.1 he]
      exact List.mem_map_of_mem hk
    have hstep := takeParameter_named hc index hl hd hpair.1 hpair.2.1 hpair.2.2 hname hvalue.1
      (ts.map Element.ofToken)
    have hparameter : (Element.ofToken name).isParameter = true := by
      rw [Element.ofToken, if_pos hname.1]
      rfl
    rw [List.map_cons, List.map_cons, run, if_pos hparameter, hstep, hvalue.2]
    exact ih (index + 1 + 1) (by rw [hl, erase_keyed]) (hd.sublist List.filter_sublist) hleft hn.2

end Pass

variable {declared : List Parameter} {pairs : List (Parameter × Text)}

/-- Texts for parameters that take one, no parameter twice. -/
structure Choice (declared : List Parameter) (pairs : List (Parameter × Text)) : Prop where
  declared : ∀ g ∈ pairs, g.1 ∈ declared
  takesText : ∀ g ∈ pairs, g.1.isSwitch = false ∧ g.1.type = .text
  once : (pairs.map (·.1)).Nodup

namespace Choice

theorem nodup_map (h : Choice declared pairs) {f : Parameter → Text}
    (hf : ∀ p ∈ declared, ∀ q ∈ declared, f p = f q → p = q) :
    (pairs.map fun g => f g.1).Nodup := by
  have hapart := List.pairwise_map.mp h.once
  exact List.pairwise_map.mpr (hapart.imp_of_mem fun hg hk hne he =>
    hne (hf _ (h.declared _ hg) _ (h.declared _ hk) he))

theorem nodup_names (h : Choice declared pairs) (hd : Parameter.Distinct declared) :
    ((arguments pairs).map (·.1)).Nodup := by
  rw [arguments, List.map_map]
  exact h.nodup_map fun p hp q hq he => hd.apart.eq_of_lower_name hp hq (congrArg Text.lower he)

theorem nodup_keywords (h : Choice declared pairs) (hk : (declared.map (·.keyword)).Nodup) :
    (pairs.map fun g => g.1.keyword).Nodup :=
  h.nodup_map fun _ hp _ hq he => List.inj_on_of_nodup_map hk hp hq he

end Choice

theorem bind_named {ts : List Token} (h : Named pairs ts) (hd : Parameter.Distinct declared)
    (hp : Choice declared pairs) (hn : ∀ p ∈ declared, p.name ≠ []) (command : Element)
    (types : Option TypeRegistry) :
    let b := bind (command :: ts.map Element.ofToken) (-1) declared types
    b.named = arguments pairs ∧ b.errors = [] ∧ b.positional = [] ∧ b.attached = [] := by
  have hcursor : (⟨declared, types, none⟩ : Context).cursor = none := rfl
  have hrun := Pass.run_named hcursor h 1 (Pass.start_available hd.apart.nodup_lower_names) hd.apart
    (fun g hg => ⟨hp.declared g hg, (hp.takesText g hg).1, hn _ (hp.declared g hg)⟩) hp.once
  have hindex : Element.indexAt? (command :: ts.map Element.ofToken) (-1) = none := rfl
  have hvalues : (Pass.start declared).values = [] := rfl
  simp only [bind, hindex, List.drop_one, List.tail_cons, hrun, Pass.finish, hvalues,
    List.zip_nil_right, List.drop_nil]
  refine ⟨?_, rfl, rfl, rfl⟩
  exact Entries.ofList_of_nodup (hp.nodup_names hd)

variable {σ : Type} {c : Command σ}

theorem keywordsFrom_arguments {b : Binding} (hb : b.attached = [])
    (hd : Parameter.Distinct c.parameters) (hp : ∀ g ∈ pairs, g.1 ∈ c.parameters ∧ g.1.type = .text)
    (vars : Variables) (keywords : Entries Text Datum) :
    keywordsFrom c b vars keywords (arguments pairs) =
      .ok (keywords.update (pairs.map fun g => (g.1.keyword, .text g.2))) := by
  induction pairs generalizing keywords with
  | nil => rfl
  | cons g pairs ih =>
    obtain ⟨hm, ht⟩ := hp g (by simp)
    have hcoerce : g.1.type.coerce (.text g.2) = .ok (.text g.2) := by
      rw [ht]
      rfl
    have hnone : b.attached.get? g.1.name = none := by
      rw [hb]
      rfl
    simp only [arguments, List.map_cons, keywordsFrom, hnone,
      Command.parameter?_name hd.apart.nodup_lower_names hm, Argument.resolve, hcoerce]
    exact ih (fun k hk => hp k (by simp [hk])) _

theorem keywords_named {b : Binding} (hb : b.named = arguments pairs ∧ b.errors = [] ∧
      b.positional = [] ∧ b.attached = []) (hd : Parameter.Distinct c.parameters)
    (hk : (c.parameters.map (·.keyword)).Nodup) (hp : Choice c.parameters pairs)
    (vars : Variables) :
    b.keywords c vars = .ok (pairs.map fun g => (g.1.keyword, .text g.2)) := by
  obtain ⟨hnamed, herrors, hpositional, hattached⟩ := hb
  simp only [keywords, herrors, hpositional, List.isEmpty_nil, Bool.not_true, Bool.false_eq_true,
    if_false, hnamed]
  rw [keywordsFrom_arguments hattached hd fun g hg => ⟨hp.declared g hg, (hp.takesText g hg).2⟩]
  refine congrArg Except.ok (Entries.ofList_of_nodup ?_)
  rw [List.map_map]
  exact hp.nodup_keywords hk

theorem sources_named {b : Binding} (hb : b.named = arguments pairs) (vars : Variables)
    (assigned : Entries Text Nat) : b.sources c vars assigned = [] := by
  have hnone : b.sources c vars assigned = Entries.ofList [] := by
    refine congrArg Entries.ofList (List.filterMap_eq_nil_iff.mpr fun entry he => ?_)
    rw [hb, arguments] at he
    obtain ⟨g, -, rfl⟩ := List.mem_map.mp he
    cases hc : c.parameter? g.1.name <;> simp [hc, Argument.heldBy?]
  exact hnone

end Binding

end CommandShell
