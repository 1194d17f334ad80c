import CommandShell.Proofs.Layout.Spoiled

/-!
What the controls keep of the calls that made them. A control stays of the type that it was given
and in the panel that it was put into, and that panel is known by its name or is none.
-/

set_option autoImplicit false

namespace CommandShell.Layout

variable {layout : Layout} {entry : Datum × Control} {c : Control} {command : Command Layout}
  {call : Call} {r : Received}

/-! ## One command -/

/-- The panel of a new control: none, or one that was there. -/
def Housed (layout : Layout) (c : Control) : Prop :=
  c.parent = .null ∨ ∃ panel ∈ layout, c.parent = panel.2.name

/-- A control is one that was there, with the same type in the same panel. -/
def Kept (layout : Layout) (c : Control) : Prop :=
  ∃ old ∈ layout, c.type = old.2.type ∧ c.parent = old.2.parent

theorem kept_of_mem (h : entry ∈ layout) : Kept layout entry.2 := ⟨entry, h, rfl, rfl⟩

theorem mem_add (h : entry ∈ (add layout c).2) : entry ∈ layout ∨ entry = (c.name, c) := by
  cases hkey : isCollection c.name with
  | true =>
    rw [add, if_pos hkey] at h
    exact .inl h
  | false =>
    rw [add_snd hkey] at h
    exact (List.mem_append.mp h).imp_right List.mem_singleton.mp

theorem mem_create : entry ∈ (create r layout).2 →
    Kept layout entry.2 ∨
      entry.2.type = argument r "control_type" ∧ Housed layout entry.2 := by
  refine outcome_keeps (entry ∈ · → _) (.inl ∘ kept_of_mem) fun answer hdone => ?_
  obtain ⟨found, -, hdone⟩ := of_bind_eq_ok hdone
  cases found with
  | some d =>
    obtain ⟨_, -, hdone⟩ := of_bind_eq_ok hdone
    obtain rfl := Except.ok.inj hdone
    exact .inl ∘ kept_of_mem
  | none =>
    obtain ⟨place, hhost, hdone⟩ := of_bind_eq_ok hdone
    cases place with
    | inr refusal =>
      obtain rfl := Except.ok.inj hdone
      exact .inl ∘ kept_of_mem
    | inl d =>
      obtain rfl := Except.ok.inj hdone
      intro hentry
      rcases mem_add hentry with hold | rfl
      · exact .inl (kept_of_mem hold)
      · refine .inr ⟨rfl, ?_⟩
        obtain hnull | ⟨key, panel, hpanel, -, hname⟩ := host_eq_ok hhost
        · exact .inl hnull
        · exact .inr ⟨_, hpanel, hname⟩

theorem mem_change : entry ∈ (change r layout).2 → Kept layout entry.2 := by
  refine outcome_keeps (entry ∈ · → _) kept_of_mem fun answer hdone => ?_
  obtain ⟨c, hlookup, hdone⟩ := of_bind_eq_ok hdone
  obtain rfl := Except.ok.inj hdone
  obtain ⟨key, hc⟩ := mem_of_lookup hlookup
  intro hentry
  obtain ⟨old, hold, rfl⟩ := List.mem_map.mp hentry
  dsimp only
  split
  · exact ⟨_, hc, rfl, rfl⟩
  · exact kept_of_mem hold

theorem mem_remove : entry ∈ (remove r layout).2 → Kept layout entry.2 := by
  refine outcome_keeps (entry ∈ · → _) kept_of_mem fun answer hdone => ?_
  obtain ⟨c, -, hdone⟩ := of_bind_eq_ok hdone
  obtain rfl := Except.ok.inj hdone
  exact fun hentry => kept_of_mem (List.mem_filter.mp hentry).1

theorem mem_run (hcommand : command ∈ commands) :
    entry ∈ (command.action.run call layout).2 → Kept layout entry.2 ∨
      command.name = creator ∧ given call "control_type" = some entry.2.type ∧
        Housed layout entry.2 := by
  have hold {p : Prop} : entry ∈ layout → Kept layout entry.2 ∨ p := .inl ∘ kept_of_mem
  rw [commands] at hcommand
  simp only [List.map_cons, List.map_nil, List.mem_cons, List.not_mem_nil, or_false] at hcommand
  obtain rfl | rfl | rfl | rfl | rfl := hcommand
  · refine action_keeps (entry ∈ · → _) hold fun r hr hentry => ?_
    obtain hkept | ⟨htype, hhoused⟩ := mem_create hentry
    · exact .inl hkept
    · refine .inr ⟨rfl, ?_, hhoused⟩
      obtain ⟨d, hd⟩ := exists_keyword hr (List.mem_cons_self ..) rfl rfl
      have hgiven : given call "control_type" = some d := hd
      rw [htype, (argument_of_receive hr).1, hgiven]
      rfl
  · exact action_keeps (entry ∈ · → _) hold fun r _ => .inl ∘ mem_change
  · exact action_keeps (entry ∈ · → _) hold fun r _ => (list_snd r layout).symm ▸ hold
  · exact action_keeps (entry ∈ · → _) hold fun r _ => .inl ∘ mem_remove
  · exact action_keeps (entry ∈ · → _) hold fun r _ => (display_snd r layout).symm ▸ hold

/-! ## Runs of calls -/

theorem Built.parent (h : Built layout) :
    ∀ entry ∈ layout, entry.2.parent = .null ∨ ∃ name, entry.2.parent = .text name := by
  induction h with
  | empty => exact fun _ hentry => nomatch hentry
  | @call layout command call hbuilt hcommand hname ih =>
    intro entry hentry
    obtain ⟨old, hold, -, hparent⟩ | ⟨-, -, hhoused⟩ := mem_run hcommand hentry
    · exact hparent ▸ ih old hold
    · refine hhoused.imp_right fun ⟨panel, hpanel, hparent⟩ => ?_
      rw [hparent, hbuilt.ordered.name_eq panel hpanel]
      exact hbuilt.ordered.exists_text (List.mem_map_of_mem hpanel)

theorem isTruthy_iff {d : Datum} (h : d = .null ∨ ∃ name, d = .text name) :
    d.isTruthy = true ↔ d ≠ .null ∧ d ≠ .text [] := by
  obtain rfl | ⟨name, rfl⟩ := h
  · simp [Datum.isTruthy]
  · simp [Datum.isTruthy]

/-- A call that gives a new control a name that is a text and one of the types of controls. -/
def Declared (command : Command Layout) (call : Call) : Prop :=
  command.name = creator →
    (∀ d, given call "name" = some d → ∃ s, d = .text s) ∧
      ∀ d, given call "control_type" = some d → ∃ m ∈ controlType.all, d = .member m

/-- The controls that there can be after calls of the commands that give new controls names and
types. Any such call counts, with whatever other arguments and however it ends. -/
inductive Made : Layout → Prop where
  | empty : Made []
  | call {layout : Layout} {command : Command Layout} (call : Call) : Made layout →
      command ∈ commands → Declared command call → Made (command.action.run call layout).2

theorem Made.built (h : Made layout) : Built layout := by
  induction h with
  | empty => exact .empty
  | call call _ hcommand hdeclared ih =>
    exact .call call ih hcommand fun hname => (hdeclared hname).1

theorem Made.type (h : Made layout) :
    ∀ entry ∈ layout, ∃ m ∈ controlType.all, entry.2.type = .member m := by
  induction h with
  | empty => exact fun _ hentry => nomatch hentry
  | @call layout command call _ hcommand hdeclared ih =>
    intro entry hentry
    obtain ⟨old, hold, htype, -⟩ | ⟨hname, hgiven, -⟩ := mem_run hcommand hentry
    · exact htype ▸ ih old hold
    · exact (hdeclared hname).2 _ hgiven

theorem declared_making {type name : String} {parent : Datum}
    (htype : ⟨controlType, type.toList, .text type.toList⟩ ∈ controlType.all) :
    Declared maker (making type name parent) := by
  refine fun _ => ⟨fun d hd => ?_, fun d hd => ?_⟩
  · exact ⟨_, (Option.some.inj hd).symm⟩
  · exact ⟨_, htype, (Option.some.inj hd).symm⟩

def unnamed : Layout :=
  (maker.action.run (making "Button" "b" (.text []))
    (maker.action.run (making "Grid" "" .null) []).2).2

theorem unnamed_made : Made unnamed := by
  have hmaker : maker ∈ commands := List.head_mem _
  exact .call _ (.call _ .empty hmaker (declared_making (by decide))) hmaker
    (declared_making (by decide))

end CommandShell.Layout
