import CommandShell.Proofs.Binding.Writes

/-!
What a binding passes to its command. When nothing is noted, every parameter element was bound or
merged and every member has a value of its type; then the keywords are those of the bound parameters
and the keys of the members, and the values decide whether there are any.
-/

set_option autoImplicit false

namespace CommandShell

namespace Entries

variable {κ α : Type} [DecidableEq κ]

theorem nodup_keys_ofList (entries : List (κ × α)) : ((ofList entries).map (·.1)).Nodup := by
  induction entries using List.reverseRecOn with
  | nil => exact List.nodup_nil
  | append_singleton entries last ih =>
    rw [ofList_concat]
    exact nodup_keys_set ih _ _

theorem get?_eq_some_iff {entries : Entries κ α} (hn : (entries.map (·.1)).Nodup) {key : κ}
    {value : α} : entries.get? key = some value ↔ (key, value) ∈ entries := by
  constructor
  · intro h
    obtain ⟨entry, hentry, rfl⟩ := Option.map_eq_some_iff.mp h
    have hkey : entry.1 = key := by simpa using List.find?_some hentry
    exact hkey ▸ List.mem_of_find?_eq_some hentry
  · intro h
    rw [get?, find?_of_mem hn h, Option.map_some]

end Entries

theorem Diagnostic.eq_of_outcome {α : Type} {noted : List Diagnostic} {result made : α}
    (h : outcome noted result = .ok made) : result = made := by
  unfold outcome at h
  split at h
  · cases h
  · exact Except.ok.inj h

/-- The value of a member is the text that was typed for it as its type reads it. Nothing typed is
no text, and an empty text is not read. -/
def AttachedMatch.Converted (m : AttachedMatch) : Prop :=
  ∀ raw, m.raw = some raw → raw ≠ [] → m.member.type.coerceText raw = .ok m.value

namespace Owner

theorem convert_eq_ok {owner : OwnerType} {member : Attachable} {raw : Text} {offset : Nat}
    {d : Datum} (h : convert owner member (some raw) offset = (d, [])) (hraw : raw ≠ []) :
    member.type.coerceText raw = .ok d := by
  cases raw with
  | nil => exact absurd rfl hraw
  | cons c raw =>
    rw [convert] at h
    split at h
    · rename_i hread
      rw [hread, (Prod.mk.inj h).1]
    · cases (Prod.mk.inj h).2
    · simp

theorem merge_converted {types : Option TypeRegistry} {parameter : Element}
    {adjacent value : Option Element} {m : AttachedMatch}
    (h : merge types parameter adjacent value = (some m, [])) : m.Converted := by
  revert h
  fun_cases merge types parameter adjacent value with
  | case1 | case2 | case3 | case4 | case6 =>
    intro h
    cases (Prod.mk.inj h).1
  | case5 types a hadjacent ownerName memberName inline hsplit owner howner member found hfound raw
      consumed hraw offset d failed hconvert =>
    intro h
    obtain ⟨hm, hnoted⟩ := Prod.mk.inj h
    obtain rfl := Option.some.inj hm
    obtain rfl := (List.append_eq_nil_iff.mp hnoted).2
    rintro typed rfl htyped
    exact convert_eq_ok hconvert htyped

end Owner

namespace Binding

variable {declared : List Parameter} {types : Option TypeRegistry} {elements : List Element}
  {cursor : Int}

theorem bind_attached (elements : List Element) (cursor : Int) (declared : List Parameter)
    (types : Option TypeRegistry) :
    (bind elements cursor declared types).attached =
      Entries.ofList ((members declared types elements).map fun m => (m.name, m)) := by
  obtain ⟨a, hrun⟩ := exists_anchor elements cursor declared types
  have hgathered : (gathered declared types elements).attached =
      Entries.ofList ((members declared types elements).map fun m => (m.name, m)) := by
    refine gathered_induction (motive := fun rs pass => pass.attached =
      Entries.ofList ((rs.filterMap Reading.member?).map fun m => (m.name, m))) rfl ?_ ?_
    · exact fun rs pass index e h => h
    · intro rs pass e rest r consumed noted _ _ _ ih
      cases r with
      | member m =>
        simp only [List.filterMap_append, List.map_append, Reading.after, ih]
        exact (Entries.ofList_concat _ (m.name, m)).symm
      | declared | unknown =>
        simp only [List.filterMap_append, List.map_append, Reading.after, ih]
        exact congrArg Entries.ofList (List.append_nil _).symm
  rw [bind, hrun, ← hgathered]
  rfl

/-- Read as a declared parameter, or as a member with a value of its type. -/
inductive Reading.Known (declared : List Parameter) : Reading → Prop where
  | declared {p : Parameter} {value : Argument} : p ∈ declared → Known declared (.declared p value)
  | member {m : AttachedMatch} : m.Converted → Known declared (.member m)

theorem Reads.member_converted {context : Context} {pass : Pass} {e : Element}
    {rest : List Element} {m : AttachedMatch} {consumed : Nat}
    (h : Reads context pass e rest (.member m) consumed []) : m.Converted := by
  cases h with
  | member _ hmerge => exact Owner.merge_converted hmerge

theorem bind_known (hn : (declared.map fun p => Text.lower p.name).Nodup)
    (hnames : ∀ e ∈ elements, e.isParameter = true → e.text ≠ [])
    (herrors : (bind elements cursor declared types).errors = []) :
    (bind elements cursor declared types).unknown = [] ∧
      ∀ r ∈ readings declared types elements, r.Known declared := by
  obtain ⟨a, hrun⟩ := exists_anchor elements cursor declared types
  rw [bind, hrun] at herrors ⊢
  obtain ⟨hunknown, hknown⟩ : (gathered declared types elements).unknown = [] ∧
      ∀ r ∈ readings declared types elements,
        (∃ p value, r = .declared p value) ∨ ∃ m, r = .member m ∧ m.Converted := by
    refine gathered_induction (motive := fun rs pass => pass.errors = [] → pass.unknown = [] ∧
      ∀ r ∈ rs, (∃ p value, r = .declared p value) ∨ ∃ m, r = .member m ∧ m.Converted)
      ?_ ?_ ?_ herrors
    · exact fun _ => ⟨rfl, by simp⟩
    · exact fun rs pass index e h => h
    · intro rs pass e rest r consumed noted hin he hr ih herrors
      rw [Reading.after_errors] at herrors
      obtain ⟨hbefore, rfl⟩ := List.append_eq_nil_iff.mp herrors
      obtain ⟨hunknown, hknown⟩ := ih hbefore
      rcases hr.declared_or_member (hnames e hin he) with ⟨p, value, rfl, -, -⟩ | ⟨m, rfl⟩
      · refine ⟨hunknown, fun r hr => (List.mem_append.mp hr).elim (hknown r) fun hr => ?_⟩
        exact .inl ⟨p, value, List.mem_singleton.mp hr⟩
      · refine ⟨hunknown, fun r' hr' => (List.mem_append.mp hr').elim (hknown r') fun hr' => ?_⟩
        exact .inr ⟨m, List.mem_singleton.mp hr', hr.member_converted⟩
  -- That the parameters are declared ones is known of all that was written, not of one step.
  obtain ⟨hwrote, -⟩ := gathered_wrote hn hnames herrors
  refine ⟨hunknown, fun r hr => ?_⟩
  rcases hknown r hr with ⟨p, value, rfl⟩ | ⟨m, rfl, hm⟩
  · exact .declared (hwrote.known p (List.mem_filterMap.mpr ⟨_, hr, rfl⟩))
  · exact .member hm

/-- What is bound when nothing is noted: the members, and the parameters that are no longer
available. -/
theorem mem_named_keys (hn : (declared.map fun p => Text.lower p.name).Nodup)
    (hnames : ∀ e ∈ elements, e.isParameter = true → e.text ≠ [])
    (herrors : (bind elements cursor declared types).errors = []) (name : Text) :
    let b := bind elements cursor declared types
    name ∈ b.named.map (·.1) ↔ name ∈ (members declared types elements).map (·.name) ∨
      ∃ p ∈ declared, p ∉ b.available ∧ p.name = name := by
  intro b
  obtain ⟨-, last, hwrote, hnamed, havailable⟩ := exists_wrote hn hnames herrors
  have hbound : ∀ p, p ∈ (writes declared types elements).filterMap Reading.parameter? ↔
      p ∈ declared ∧ p ∉ b.available := by
    intro p
    rw [havailable, hwrote.available, Pass.keyed_map_snd, Pass.mem_untaken]
    exact ⟨fun h => ⟨hwrote.known p h, by simp [h]⟩, fun ⟨hin, hleft⟩ =>
      not_not.mp fun hp => hleft ⟨hin, hp⟩⟩
  rw [hnamed, hwrote.named, Entries.mem_keys_ofList, (Reading.keys_entries_perm _).mem_iff,
    List.mem_append, members_eq_writes]
  exact or_congr_right (by simp only [List.mem_map, hbound, and_assoc])

theorem nodup_named_keys (hn : (declared.map fun p => Text.lower p.name).Nodup)
    (hnames : ∀ e ∈ elements, e.isParameter = true → e.text ≠ [])
    (herrors : (bind elements cursor declared types).errors = []) :
    ((bind elements cursor declared types).named.map (·.1)).Nodup := by
  obtain ⟨-, last, hwrote, hnamed, -⟩ := exists_wrote hn hnames herrors
  rw [hnamed, hwrote.named]
  exact Entries.nodup_keys_ofList _

section Passed

variable {σ : Type} {c : Command σ} {b : Binding} {vars : Variables}
  {given passed : Entries Text Datum} {key : Text}

/-- What becomes of one named argument: a keyword and its value, if it is passed at all. -/
def passed? (c : Command σ) (b : Binding) (vars : Variables) (name : Text) (argument : Argument) :
    Except InvocationFault (Option (Text × Datum)) :=
  match b.attached.get? name with
  | some m => .ok (some (name, m.value))
  | none =>
    match c.parameter? name with
    | none => .ok none
    | some p =>
      match p.type.coerce (argument.resolve vars) with
      | .ok d => .ok (some (p.keyword, d))
      | .error raised => .error (.ofConversion p.name raised)

theorem keywordsFrom_cons (given : Entries Text Datum) (name : Text) (argument : Argument)
    (rest : List (Text × Argument)) :
    keywordsFrom c b vars given ((name, argument) :: rest) =
      match passed? c b vars name argument with
      | .error fault => .error fault
      | .ok none => keywordsFrom c b vars given rest
      | .ok (some entry) => keywordsFrom c b vars (given.set entry.1 entry.2) rest := by
  cases hattached : b.attached.get? name with
  | some m => simp only [keywordsFrom, passed?, hattached]
  | none =>
    cases hp : c.parameter? name with
    | none => simp only [keywordsFrom, passed?, hattached, hp]
    | some p =>
      cases hd : p.type.coerce (argument.resolve vars) <;>
        simp only [keywordsFrom, passed?, hattached, hp, hd]

theorem keywordsFrom_ok_iff (given : Entries Text Datum) {arguments : List (Text × Argument)} :
    (∃ passed, keywordsFrom c b vars given arguments = .ok passed) ↔
      ∀ entry ∈ arguments, ∃ one, passed? c b vars entry.1 entry.2 = .ok one := by
  induction arguments generalizing given with
  | nil => simp [keywordsFrom]
  | cons entry rest ih =>
    obtain ⟨name, argument⟩ := entry
    rw [keywordsFrom_cons, List.forall_mem_cons]
    cases hone : passed? c b vars name argument with
    | error fault => simp
    | ok one => cases one <;> simp [ih]

theorem mem_keys_keywordsFrom {arguments : List (Text × Argument)}
    (h : keywordsFrom c b vars given arguments = .ok passed) :
    key ∈ passed.map (·.1) ↔ key ∈ given.map (·.1) ∨
      ∃ entry ∈ arguments, ∃ d, passed? c b vars entry.1 entry.2 = .ok (some (key, d)) := by
  induction arguments generalizing given with
  | nil =>
    obtain rfl := Except.ok.inj h
    simp
  | cons entry rest ih =>
    obtain ⟨name, argument⟩ := entry
    rw [keywordsFrom_cons] at h
    simp only [List.mem_cons, exists_eq_or_imp]
    cases hone : passed? c b vars name argument with
    | error fault =>
      rw [hone] at h
      cases h
    | ok one =>
      rw [hone] at h
      cases one with
      | none => simpa using ih h
      | some entry =>
        rw [ih h, Entries.mem_keys_set]
        obtain ⟨k, d⟩ := entry
        simp only [Except.ok.injEq, Option.some.injEq, Prod.mk.injEq, exists_and_left, exists_eq',
          and_true, eq_comm (a := key), or_assoc, or_left_comm]

theorem nodup_keys_keywordsFrom {arguments : List (Text × Argument)}
    (h : keywordsFrom c b vars given arguments = .ok passed) (hn : (given.map (·.1)).Nodup) :
    (passed.map (·.1)).Nodup := by
  induction arguments generalizing given with
  | nil =>
    obtain rfl := Except.ok.inj h
    exact hn
  | cons entry rest ih =>
    obtain ⟨name, argument⟩ := entry
    rw [keywordsFrom_cons] at h
    split at h
    · cases h
    · exact ih h hn
    · exact ih h (Entries.nodup_keys_set hn _ _)

theorem keywords_eq_ok : b.keywords c vars = .ok passed ↔
    b.errors = [] ∧ b.positional = [] ∧ keywordsFrom c b vars [] b.named = .ok passed := by
  cases he : b.errors <;> cases hp : b.positional <;> simp [keywords, he, hp]

theorem eq_of_outcome {b' : Binding} (h : b.outcome = .ok b') : b = b' :=
  Diagnostic.eq_of_outcome h

theorem outcome_of_keywords (h : b.keywords c vars = .ok passed) : b.outcome = .ok b := by
  rw [outcome, (keywords_eq_ok.mp h).1]
  rfl

theorem nodup_keys_keywords (h : b.keywords c vars = .ok passed) : (passed.map (·.1)).Nodup :=
  nodup_keys_keywordsFrom (keywords_eq_ok.mp h).2.2 List.nodup_nil

end Passed

section Clean

variable {σ : Type} (c : Command σ) (types : Option TypeRegistry) (elements : List Element)

/-- What a command is run on. Of a parameter whose name is also the key of a member no value is
asked. -/
structure Clean (vars : Variables) : Prop where
  known : ∀ r ∈ readings c.parameters types elements, r.Known c.parameters
  unknown : (bind elements (-1) c.parameters types).unknown = []
  placed : (bind elements (-1) c.parameters types).positional = []
  noted : (bind elements (-1) c.parameters types).errors = []
  values : ∀ p ∈ c.parameters, p.name ∉ (members c.parameters types elements).map (·.name) →
    ∀ a, (bind elements (-1) c.parameters types).named.get? p.name = some a →
      ∃ d, p.type.coerce (a.resolve vars) = .ok d
  accepted : members c.parameters types elements = [] ∨ c.action.takesAny = true

/-- The keywords that are passed: those of the bound parameters and the keys of the members. A
parameter whose name is also the key of a member is passed as that member. -/
inductive Passes : Text → Prop where
  | parameter {p : Parameter} : p ∈ c.parameters →
      p ∉ (bind elements (-1) c.parameters types).available →
      p.name ∉ (members c.parameters types elements).map (·.name) → Passes p.keyword
  | member {m : AttachedMatch} : m ∈ members c.parameters types elements → Passes m.name

variable {c types elements} {vars : Variables} {key name : Text} {a : Argument}

theorem attached_get?_isSome : ((bind elements (-1) c.parameters types).attached.get? name).isSome =
    true ↔ name ∈ (members c.parameters types elements).map (·.name) := by
  rw [bind_attached, Entries.isSome_get?, Entries.mem_keys_ofList, List.map_map]
  rfl

theorem bind_attached_eq_nil : (bind elements (-1) c.parameters types).attached = [] ↔
    members c.parameters types elements = [] := by
  rw [bind_attached]
  refine ⟨fun h => ?_, fun h => by rw [h]; rfl⟩
  refine List.eq_nil_iff_forall_not_mem.mpr fun m hm => ?_
  have hkey := Entries.mem_keys_ofList.mpr
    (List.mem_map_of_mem (f := (·.1)) (List.mem_map_of_mem (f := fun m => (m.name, m)) hm))
  rw [h] at hkey
  cases hkey

theorem passed?_member (vars : Variables) (a : Argument)
    (h : name ∈ (members c.parameters types elements).map (·.name)) :
    ∃ d, passed? c (bind elements (-1) c.parameters types) vars name a = .ok (some (name, d)) := by
  obtain ⟨m, hm⟩ := Option.isSome_iff_exists.mp (attached_get?_isSome.mpr h)
  exact ⟨m.value, by rw [passed?, hm]⟩

theorem passed?_parameter (hn : (c.parameters.map fun p => Text.lower p.name).Nodup)
    {p : Parameter} (hp : p ∈ c.parameters)
    (h : p.name ∉ (members c.parameters types elements).map (·.name)) :
    passed? c (bind elements (-1) c.parameters types) vars p.name a =
      match p.type.coerce (a.resolve vars) with
      | .ok d => .ok (some (p.keyword, d))
      | .error raised => .error (.ofConversion p.name raised) := by
  have hnone := Option.not_isSome_iff_eq_none.mp (mt attached_get?_isSome.mp h)
  simp only [passed?, hnone, Command.parameter?_name hn hp]

section

variable (hn : (c.parameters.map fun p => Text.lower p.name).Nodup)
  (hnames : ∀ e ∈ elements, e.isParameter = true → e.text ≠ [])

include hn hnames

theorem passed?_ok_iff (herrors : (bind elements (-1) c.parameters types).errors = []) :
    (∀ entry ∈ (bind elements (-1) c.parameters types).named, ∃ one,
        passed? c (bind elements (-1) c.parameters types) vars entry.1 entry.2 = .ok one) ↔
      ∀ p ∈ c.parameters, p.name ∉ (members c.parameters types elements).map (·.name) →
        ∀ a, (bind elements (-1) c.parameters types).named.get? p.name = some a →
          ∃ d, p.type.coerce (a.resolve vars) = .ok d := by
  have hget {name : Text} {a : Argument} :
      (bind elements (-1) c.parameters types).named.get? name = some a ↔
        (name, a) ∈ (bind elements (-1) c.parameters types).named :=
    Entries.get?_eq_some_iff (nodup_named_keys hn hnames herrors)
  constructor
  · intro h p hp hm a ha
    obtain ⟨one, hone⟩ := h _ (hget.mp ha)
    rw [passed?_parameter hn hp hm] at hone
    cases hd : p.type.coerce (a.resolve vars) with
    | ok d => exact ⟨d, rfl⟩
    | error raised =>
      rw [hd] at hone
      cases hone
  · rintro h ⟨name, a⟩ hentry
    by_cases hm : name ∈ (members c.parameters types elements).map (·.name)
    · obtain ⟨d, hd⟩ := passed?_member vars a hm
      exact ⟨_, hd⟩
    · have hkey := (mem_named_keys hn hnames herrors name).mp (List.mem_map_of_mem hentry)
      obtain ⟨p, hp, -, rfl⟩ := hkey.resolve_left hm
      obtain ⟨d, hd⟩ := h p hp hm a (hget.mpr hentry)
      exact ⟨some (p.keyword, d), by rw [passed?_parameter hn hp hm, hd]⟩

/-- A binding is clean when there are keywords and the command accepts them. -/
theorem clean_iff : Clean c types elements vars ↔
    (∃ keywords, (bind elements (-1) c.parameters types).keywords c vars = .ok keywords) ∧
      (members c.parameters types elements = [] ∨ c.action.takesAny = true) := by
  constructor
  · intro h
    obtain ⟨keywords, hk⟩ := (keywordsFrom_ok_iff []).mpr
      ((passed?_ok_iff hn hnames h.noted).mpr h.values)
    exact ⟨⟨keywords, keywords_eq_ok.mpr ⟨h.noted, h.placed, hk⟩⟩, h.accepted⟩
  · rintro ⟨⟨keywords, hk⟩, haccepted⟩
    obtain ⟨hnoted, hplaced, hfrom⟩ := keywords_eq_ok.mp hk
    obtain ⟨hunknown, hknown⟩ := bind_known hn hnames hnoted
    exact ⟨hknown, hunknown, hplaced, hnoted,
      (passed?_ok_iff hn hnames hnoted).mp ((keywordsFrom_ok_iff []).mp ⟨_, hfrom⟩), haccepted⟩

theorem mem_keys_keywords {keywords : Entries Text Datum}
    (h : (bind elements (-1) c.parameters types).keywords c vars = .ok keywords) (key : Text) :
    key ∈ keywords.map (·.1) ↔ Passes c types elements key := by
  obtain ⟨hnoted, -, hfrom⟩ := keywords_eq_ok.mp h
  have hall := (keywordsFrom_ok_iff []).mp ⟨_, hfrom⟩
  have hnamed (name : Text) := mem_named_keys hn hnames hnoted name
  rw [mem_keys_keywordsFrom hfrom, List.map_nil, or_iff_right List.not_mem_nil]
  constructor
  -- A name that is also the key of a member is passed as the member, even if a parameter has it.
  · rintro ⟨⟨name, a⟩, hentry, d, hd⟩
    by_cases hm : name ∈ (members c.parameters types elements).map (·.name)
    · obtain ⟨d', hd'⟩ := passed?_member vars a hm
      obtain ⟨m, hin, rfl⟩ := List.mem_map.mp hm
      simp only [hd', Except.ok.injEq, Option.some.injEq, Prod.mk.injEq] at hd
      exact hd.1 ▸ .member hin
    · obtain ⟨p, hp, hbound, rfl⟩ := ((hnamed name).mp (List.mem_map_of_mem hentry)).resolve_left hm
      rw [passed?_parameter hn hp hm] at hd
      split at hd
      · simp only [Except.ok.injEq, Option.some.injEq, Prod.mk.injEq] at hd
        exact hd.1 ▸ .parameter hp hbound hm
      · cases hd
  · rintro (@⟨p, hp, hbound, hm⟩ | @⟨m, hin⟩)
    · have hkey := (hnamed p.name).mpr (.inr ⟨p, hp, hbound, rfl⟩)
      obtain ⟨⟨name, a⟩, hentry, hname⟩ := List.mem_map.mp hkey
      obtain rfl : name = p.name := hname
      obtain ⟨one, hone⟩ := hall _ hentry
      rw [passed?_parameter hn hp hm] at hone
      split at hone
      · rename_i d hd
        exact ⟨_, hentry, d, by rw [passed?_parameter hn hp hm, hd]⟩
      · cases hone
    · have hm := List.mem_map_of_mem (f := (·.name)) hin
      obtain ⟨⟨name, a⟩, hentry, hname⟩ := List.mem_map.mp ((hnamed m.name).mpr (.inl hm))
      obtain rfl : name = m.name := hname
      exact ⟨_, hentry, passed?_member vars a hm⟩

end

end Clean

end Binding

end CommandShell
