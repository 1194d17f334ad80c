import CommandShell.Proofs.Layout.Tree

/-!
The commands that make, change and remove controls keep the order in which the controls were made,
whatever they are given and however they end.
-/

set_option autoImplicit false

namespace CommandShell.Layout

variable {layout : Layout} {c : Control} {key name parent : Datum} {r : Received}

/-! ## Steps that can fail -/

theorem outcome_keeps (P : Layout → Prop) {result : Except Raised (Outcome × Layout)}
    (hkept : P layout) (hdone : ∀ answer, result = .ok answer → P answer.2) :
    P (outcome result layout).2 := by
  cases result with
  | error raised => exact hkept
  | ok answer => exact hdone answer rfl

/-! ## Finding a control -/

theorem find?_cons_eq_ok {found : Option Control}
    (h : find? ((key, c) :: layout) name = .ok found) :
    lowered key = lowered name ∧ found = some c ∨
      lowered key ≠ lowered name ∧ find? layout name = .ok found := by
  obtain ⟨a, ha, h⟩ := of_bind_eq_ok h
  obtain ⟨b, hb, h⟩ := of_bind_eq_ok h
  rw [ha, hb, Ne, Except.ok.injEq]
  split at h
  · rename_i hab
    exact .inl ⟨hab, (Except.ok.inj h).symm⟩
  · rename_i hab
    exact .inr ⟨hab, h⟩

theorem mem_of_find? (h : find? layout name = .ok (some c)) : ∃ key, (key, c) ∈ layout := by
  induction layout with
  | nil => cases h
  | cons entry layout ih =>
    obtain ⟨-, hc⟩ | ⟨-, hrest⟩ := find?_cons_eq_ok h
    · obtain rfl := Option.some.inj hc
      exact ⟨entry.1, List.mem_cons_self ..⟩
    · obtain ⟨key, hmem⟩ := ih hrest
      exact ⟨key, List.mem_cons_of_mem _ hmem⟩

theorem lowered_ne_of_find? (h : find? layout name = .ok none) :
    ∀ entry ∈ layout, lowered entry.1 ≠ lowered name := by
  induction layout with
  | nil => exact fun _ hentry => nomatch hentry
  | cons entry layout ih =>
    obtain ⟨-, hnone⟩ | ⟨hne, hrest⟩ := find?_cons_eq_ok h
    · cases hnone
    · exact List.forall_mem_cons.mpr ⟨hne, ih hrest⟩

theorem mem_of_lookup (h : lookup layout name = .ok c) : ∃ key, (key, c) ∈ layout := by
  obtain ⟨found, hfind, h⟩ := of_bind_eq_ok h
  cases found with
  | none =>
    obtain ⟨_, -, h⟩ := of_bind_eq_ok h
    cases h
  | some d =>
    obtain rfl := Except.ok.inj h
    exact mem_of_find? hfind

theorem host_eq_ok {d : Datum} (h : host layout parent = .ok (.inl d)) :
    d = .null ∨ ∃ key panel, (key, panel) ∈ layout ∧ isPanel panel = .ok true ∧ d = panel.name := by
  unfold host at h
  split at h
  · exact .inl (Sum.inl.inj (Except.ok.inj h)).symm
  · obtain ⟨panel, hlookup, h⟩ := of_bind_eq_ok h
    obtain ⟨isIt, htype, h⟩ := of_bind_eq_ok h
    cases isIt with
    | false =>
      obtain ⟨_, -, h⟩ := of_bind_eq_ok h
      obtain ⟨_, -, h⟩ := of_bind_eq_ok h
      cases h
    | true =>
      obtain ⟨key, hpanel⟩ := mem_of_lookup hlookup
      exact .inr ⟨key, panel, hpanel, htype, (Sum.inl.inj (Except.ok.inj h)).symm⟩

/-! ## One command -/

/-- A control is added even if saying so fails. -/
theorem add_snd (h : isCollection c.name = false) :
    (add layout c).2 = layout ++ [(c.name, c)] := by
  rw [add, if_neg (by simp [h])]
  dsimp only
  cases created c <;> rfl

theorem add_ordered (h : Ordered layout) {s : Text} (hname : c.name = .text s)
    (hfree : ∀ entry ∈ layout, lowered entry.1 ≠ .ok (Text.lower s))
    (hhost : c.parent.isTruthy = true →
      ∃ panel, (c.parent, panel) ∈ layout ∧ isPanel panel = .ok true) :
    Ordered (add layout c).2 := by
  rw [add_snd (hname ▸ rfl)]
  exact hname ▸ h.add hname hfree hhost

theorem create_ordered (h : Ordered layout) (hname : ∃ s, argument r "name" = .text s) :
    Ordered (create r layout).2 := by
  obtain ⟨s, hs⟩ := hname
  refine outcome_keeps Ordered h fun answer hdone => ?_
  obtain ⟨found, hfind, hdone⟩ := of_bind_eq_ok hdone
  rw [hs] at hfind hdone
  cases found with
  | some d =>
    obtain ⟨_, -, hdone⟩ := of_bind_eq_ok hdone
    obtain rfl := Except.ok.inj hdone
    exact h
  | none =>
    obtain ⟨place, hhost, hdone⟩ := of_bind_eq_ok hdone
    cases place with
    | inr refusal =>
      obtain rfl := Except.ok.inj hdone
      exact h
    | inl d =>
      obtain rfl := Except.ok.inj hdone
      refine add_ordered h rfl (lowered_ne_of_find? hfind) fun hparent => ?_
      obtain rfl | ⟨key, panel, hpanel, htype, rfl⟩ := host_eq_ok hhost
      · cases hparent
      · exact ⟨panel, h.name_eq _ hpanel ▸ hpanel, htype⟩

theorem change_ordered (h : Ordered layout) : Ordered (change r layout).2 := by
  refine outcome_keeps Ordered h fun answer hdone => ?_
  obtain ⟨c, hlookup, hdone⟩ := of_bind_eq_ok hdone
  obtain rfl := Except.ok.inj hdone
  obtain ⟨key, hc⟩ := mem_of_lookup hlookup
  exact h.replace (h.name_eq _ hc ▸ hc) ⟨rfl, rfl, rfl⟩

theorem remove_ordered (h : Ordered layout) : Ordered (remove r layout).2 := by
  refine outcome_keeps Ordered h fun answer hdone => ?_
  obtain ⟨c, hlookup, hdone⟩ := of_bind_eq_ok hdone
  obtain rfl := Except.ok.inj hdone
  obtain ⟨key, hc⟩ := mem_of_lookup hlookup
  exact h.erase (drained_nested h (h.name_eq _ hc ▸ List.mem_map_of_mem hc))

theorem list_snd (r : Received) (layout : Layout) : (list r layout).2 = layout := by
  refine outcome_keeps (· = layout) rfl fun answer hdone => ?_
  obtain ⟨rows, -, hdone⟩ := of_bind_eq_ok hdone
  cases rows with
  | nil => exact (Except.ok.inj hdone) ▸ rfl
  | cons row rows =>
    obtain ⟨cells, -, hdone⟩ := of_bind_eq_ok hdone
    exact (Except.ok.inj hdone) ▸ rfl

theorem display_snd (r : Received) (layout : Layout) : (display r layout).2 = layout := by
  refine outcome_keeps (· = layout) rfl fun answer hdone => ?_
  split at hdone
  case' isTrue => obtain ⟨c, -, hdone⟩ := of_bind_eq_ok hdone
  all_goals
    obtain ⟨roots, -, hdone⟩ := of_bind_eq_ok hdone
    cases roots with
    | nil => exact (Except.ok.inj hdone) ▸ rfl
    | cons c roots =>
      obtain ⟨lines, -, hdone⟩ := of_bind_eq_ok hdone
      exact (Except.ok.inj hdone) ▸ rfl

/-! ## A call -/

theorem receive_eq_ok {s : Signature} {call : Call} (h : s.receive call = .ok r) :
    s.refusal? call.keywords = none ∧ r.own = s.ownValues call.keywords := by
  unfold Signature.receive at h
  split at h
  · cases h
  · rename_i hnone
    exact ⟨hnone, (Except.ok.inj h) ▸ rfl⟩

theorem exists_keyword {s : Signature} {call : Call} (h : s.receive call = .ok r)
    {a : DeclaredArgument} (ha : a ∈ s.arguments) (hkind : a.kind = .placeOrName)
    (hfallback : a.fallback = none) : ∃ d, call.keywords.get? a.name = some d := by
  have hmissing : s.missing? call.keywords false = none :=
    (Option.or_eq_none_iff.mp (Option.or_eq_none_iff.mp (receive_eq_ok h).1).2).1
  unfold Signature.missing? at hmissing
  split at hmissing
  · rename_i hfilter
    have hgiven := List.filter_eq_nil_iff.mp hfilter a ha
    rw [← Option.ne_none_iff_exists']
    simpa [Signature.isByPlace, Signature.valueIn, Signature.isByName, hkind, hfallback]
      using hgiven
  · cases hmissing

theorem action_keeps (P : Layout → Prop) {routine : Routine Layout} {call : Call} (hkept : P layout)
    (hbody : ∀ r, routine.signature.receive call = .ok r → P (routine.body r layout).2) :
    P (routine.action.run call layout).2 := by
  simp only [Routine.action]
  split
  · rename_i r hr
    exact hbody r hr
  · exact hkept

theorem Ordered.action (h : Ordered layout) {routine : Routine Layout} {call : Call}
    (hbody : ∀ r, routine.signature.receive call = .ok r → Ordered (routine.body r layout).2) :
    Ordered (routine.action.run call layout).2 :=
  action_keeps Ordered h hbody

theorem Ordered.run (h : Ordered layout) {command : Command Layout} (hcommand : command ∈ commands)
    {call : Call} (hname : command.name = "New-Control".toList →
      ∀ d, call.keywords.get? "name".toList = some d → ∃ s, d = .text s) :
    Ordered (command.action.run call layout).2 := by
  rw [commands] at hcommand
  simp only [List.map_cons, List.map_nil, List.mem_cons, List.not_mem_nil, or_false] at hcommand
  obtain rfl | rfl | rfl | rfl | rfl := hcommand
  · refine h.action fun r hr => create_ordered h ?_
    obtain ⟨d, hd⟩ := exists_keyword hr (List.mem_cons_of_mem _ (List.mem_cons_self ..)) rfl rfl
    obtain ⟨s, rfl⟩ := hname rfl d hd
    refine ⟨s, ?_⟩
    change call.keywords.get? "name".toList = some (.text s) at hd
    rw [argument, (receive_eq_ok hr).2]
    change ((call.keywords.get? "name".toList).or none).getD .null = .text s
    rw [hd]
    rfl
  · exact h.action fun r _ => change_ordered h
  · exact h.action fun r _ => (list_snd r layout).symm ▸ h
  · exact h.action fun r _ => remove_ordered h
  · exact h.action fun r _ => (display_snd r layout).symm ▸ h

theorem command_eq {command other : Command Layout} (hcommand : command ∈ commands)
    (hother : other ∈ commands) (hname : command.name = other.name) : command = other := by
  have hnames : (commands.map (·.name)).Nodup := by decide
  exact List.inj_on_of_nodup_map hnames hcommand hother hname

/-! ## Runs of calls -/

/-- The controls that there can be after calls of the commands. Any call counts, with whatever
arguments and however it ends, as long as the name of a new control is a text. -/
inductive Built : Layout → Prop where
  | empty : Built []
  | call {layout : Layout} {command : Command Layout} (call : Call) : Built layout →
      command ∈ commands →
      (command.name = "New-Control".toList →
        ∀ d, call.keywords.get? "name".toList = some d → ∃ s, d = .text s) →
      Built (command.action.run call layout).2

theorem Built.ordered (h : Built layout) : Ordered layout := by
  induction h with
  | empty => exact .nil
  | call call _ hcommand hname ih => exact ih.run hcommand hname

/-- Whatever calls were made, the controls make up a tree. -/
theorem built_tree (h : Built layout) : Tree layout := h.ordered.tree

def maker : Command Layout := commands.head (by decide)

def making (type name : String) (parent : Datum) : Call :=
  ⟨[("control_type".toList, .member ⟨controlType, type.toList, .text type.toList⟩),
    ("name".toList, .text name.toList), ("parent".toList, parent)], []⟩

def page : Layout :=
  (maker.action.run (making "Button" "ok" (.text "ROOT".toList))
    (maker.action.run (making "StackPanel" "root" .null) []).2).2

theorem page_built : Built page := by
  have hmaker : maker ∈ commands := List.head_mem _
  refine .call _ (.call _ .empty hmaker fun _ d hd => ?_) hmaker fun _ d hd => ?_
  · exact ⟨_, (Option.some.inj hd).symm⟩
  · exact ⟨_, (Option.some.inj hd).symm⟩

theorem built_tree_page :
    Built page ∧ page.map (fun entry => (entry.1, entry.2.parent)) =
      [(.text "root".toList, .null), (.text "ok".toList, .text "root".toList)] ∧ Tree page :=
  ⟨page_built, rfl, built_tree page_built⟩

end CommandShell.Layout
