import CommandShell.Proofs.Fault
import CommandShell.Proofs.Layout.Made
import CommandShell.Proofs.Layout.Shown

/-!
What showing all controls shows: a line for every control, indented by how deep the control is
nested. A control that was put into the panel of the empty name is held by none and is shown at the
margin. There is a line for each as long as there is room for one call in the other; the first for
which there is none, or which cannot be written, is what the command fails with.
-/

set_option autoImplicit false

namespace CommandShell.Layout

variable {layout : Layout} {c : Control} {command : Command Layout} {call : Call} {r : Received}
  {depth : Nat} {roots : List Control} {shown : List (Nat × Control)}

/-! ## Lines -/

def caption (c : Control) : Text := (label c 0).toOption.getD []

def line (e : Nat × Control) : Text := Text.repeated (2 * e.1) ' ' ++ caption e.2

/-- The line of a control, if there is room for it at its depth and it can be written. -/
def lineAt (e : Nat × Control) : Except Raised Text :=
  if e.1 + lineRoom e.2 < maxRoom then label e.2 e.1 else .error (tooDeep e.2)

structure Writable (c : Control) : Prop where
  content : c.content.isTruthy = true → ∃ s, c.content.print = .ok s
  attached : ∀ entry ∈ c.attached, ∃ s, valueText entry.2 = .ok s

theorem attachedText_isOk : (∃ s, attachedText c = .ok s) ↔
    ∀ entry ∈ c.attached, ∃ s, valueText entry.2 = .ok s := by
  have hmember (entry : Text × Datum) :
      (∃ s, (do pure (entry.1 ++ '=' :: (← valueText entry.2)) : Except Raised Text) = .ok s) ↔
        ∃ s, valueText entry.2 = .ok s := by
    rw [exists_bind_eq_ok]
    exact exists_congr fun s => and_iff_left ⟨_, rfl⟩
  rw [attachedText, exists_bind_eq_ok, ← forall₂_congr fun entry _ => hmember entry,
    ← exists_mapM_eq_ok]
  exact exists_congr fun members => and_iff_left ⟨_, rfl⟩

theorem contentText_isOk : (∃ s, contentText c = .ok s) ↔
    (c.content.isTruthy = true → ∃ s, c.content.print = .ok s) := by
  rw [contentText]
  by_cases htruthy : c.content.isTruthy = true
  · rw [if_pos htruthy, exists_bind_eq_ok, forall_prop_of_true htruthy]
    exact exists_congr fun s => and_iff_left ⟨_, rfl⟩
  · rw [if_neg htruthy]
    exact iff_of_true ⟨_, rfl⟩ fun h => absurd h htruthy

theorem label_isOk {type name : Text} (htype : typeText c.type = .ok type)
    (hname : c.name.print = .ok name) (depth : Nat) :
    (∃ s, label c depth = .ok s) ↔ Writable c := by
  constructor
  · rintro ⟨s, h⟩
    obtain ⟨_, -, h⟩ := of_bind_eq_ok h
    obtain ⟨_, -, h⟩ := of_bind_eq_ok h
    obtain ⟨content, hcontent, h⟩ := of_bind_eq_ok h
    obtain ⟨attached, hattached, -⟩ := of_bind_eq_ok h
    exact ⟨contentText_isOk.mp ⟨content, hcontent⟩, attachedText_isOk.mp ⟨attached, hattached⟩⟩
  · intro h
    obtain ⟨content, hcontent⟩ := contentText_isOk.mpr h.content
    obtain ⟨attached, hattached⟩ := attachedText_isOk.mpr h.attached
    rw [label, htype, hname, hcontent, hattached]
    exact ⟨_, rfl⟩

theorem label_eq_map (c : Control) (depth : Nat) :
    label c depth = (label c 0).map (Text.repeated (2 * depth) ' ' ++ ·) := by
  unfold label
  cases typeText c.type with
  | error raised => rfl
  | ok type =>
    cases c.name.print with
    | error raised => rfl
    | ok name =>
      cases contentText c with
      | error raised => rfl
      | ok content =>
        cases attachedText c with
        | error raised => rfl
        | ok attached => simp [Text.repeated, Except.map, bind, Except.bind, pure, Except.pure]

theorem typeText_eq {m : Member} (hm : m ∈ controlType.all) :
    typeText (.member m) = .ok m.name := by
  have hvalues : ∀ m ∈ controlType.all, m.value = .text m.name := by decide
  rw [typeText, hvalues m hm]
  rfl

theorem lineAt_eq_line {e : Nat × Control} {type name : Text}
    (htype : typeText e.2.type = .ok type) (hname : e.2.name.print = .ok name) :
    lineAt e = .ok (line e) ↔ e.1 + lineRoom e.2 < maxRoom ∧ Writable e.2 := by
  rw [lineAt]
  split
  · rename_i hfits
    rw [and_iff_right hfits, ← label_isOk htype hname 0, label_eq_map]
    refine ⟨fun h => exists_of_map_eq_ok h |>.imp fun _ => And.left, fun ⟨s, hs⟩ => ?_⟩
    rw [line, caption, hs]
    rfl
  · rename_i hdeep
    exact iff_of_false nofun fun h => hdeep h.1

theorem eq_line {e : Nat × Control} {s : Text} (h : lineAt e = .ok s) : s = line e := by
  rw [lineAt] at h
  split at h
  · rw [label_eq_map] at h
    obtain ⟨shown, hshown, rfl⟩ := exists_of_map_eq_ok h
    rw [line, caption, hshown]
    rfl
  · cases h

theorem forall₂_line (h : ∀ e ∈ shown, lineAt e = .ok (line e)) :
    List.Forall₂ (fun e s => lineAt e = .ok s) shown (shown.map line) :=
  List.forall₂_map_right_iff.mpr (List.forall₂_same.mpr h)

/-- The lines of what is nested in controls are those of the order in which it is shown, up to the
first that cannot be made. -/
theorem mapM_tree {room : Nat} (h : Shown layout depth roots shown)
    (hroom : room + depth = maxRoom) :
    (roots.mapM (tree layout room depth)).map List.flatten = shown.mapM lineAt := by
  induction h generalizing room with
  | nil => rfl
  | @cons depth c roots inner outer _ _ ihinner ihouter =>
    have htree : tree layout room depth c = ((depth, c) :: inner).mapM lineAt := by
      rw [List.mapM_cons, lineAt]
      cases room with
      | zero =>
        rw [tree, if_neg (by dsimp only; omega)]
        rfl
      | succ room =>
        rw [tree]
        by_cases hdeep : room < lineRoom c
        · rw [if_pos hdeep, if_neg (by dsimp only; omega)]
          rfl
        · rw [if_neg hdeep, if_pos (by dsimp only; omega),
            ← ihinner (show room + (depth + 1) = maxRoom by omega)]
          cases label c depth with
          | error raised => rfl
          | ok first => cases (children layout c.name).mapM (tree layout room (depth + 1)) <;> rfl
    rw [List.mapM_cons, htree, ← List.cons_append, List.mapM_append, ← ihouter hroom]
    cases ((depth, c) :: inner).mapM lineAt with
    | error raised => rfl
    | ok lines => cases roots.mapM (tree layout room depth) <;> rfl

/-! ## The command -/

def displayer : Text := "Show-Layout".toList

def displaying : Command Layout := commands.get ⟨4, by decide⟩

theorem run_displayer (layout : Layout) (hcommand : command ∈ commands)
    (hname : command.name = displayer) (hcall : call.keywords = []) :
    ∃ r, argument r "root" = .null ∧ command.action.run call layout = display r layout := by
  obtain rfl : command = displaying := command_eq hcommand (List.get_mem ..) hname
  obtain ⟨keywords, sources⟩ := call
  obtain rfl : keywords = _ := hcall
  exact ⟨_, rfl, rfl⟩

theorem display_eq (h : Shown layout 0 (children layout .null) shown)
    (hr : argument r "root" = .null) :
    display r layout =
      (match shown.mapM lineAt with
        | .error raised => .failed raised
        | .ok lines =>
          if shown.isEmpty then noControls
          else .value (.text (Text.join ['\n'] lines)), layout) := by
  have hlines := mapM_tree h (Nat.add_zero maxRoom)
  rw [display, hr, ← hlines]
  cases hroots : children layout .null with
  | nil =>
    rw [hroots] at h
    cases h
    rfl
  | cons c roots =>
    rw [hroots] at h
    cases h
    simp only [Datum.isTruthy, outcome, Bool.false_eq_true, if_false, pure_bind]
    cases (c :: roots).mapM (tree layout maxRoom 0) <;> rfl

/-- The order in which all controls are shown, each with the depth that it is shown at. -/
structure Shows (layout : Layout) (shown : List (Nat × Control)) : Prop where
  /-- Every control is shown once. -/
  once : (shown.map (·.2)).Perm (layout.map (·.2))
  /-- What one panel holds comes in the order in which it was made. -/
  siblings : ∀ c d, [c, d].Sublist (layout.map (·.2)) → holder c = holder d →
    [c, d].Sublist (shown.map (·.2))
  /-- What is in no panel stands at the margin, and so does what is in the panel of the empty
  name. -/
  margin : ∀ e ∈ shown, e.2.parent = .null ∨ e.2.parent = .text [] → e.1 = 0
  /-- Any other control stands behind the panel that it is in and one step deeper, and what stands
  between them is deeper than the panel. -/
  nested : ∀ before n c after, shown = before ++ (n, c) :: after → c.parent ≠ .null →
    c.parent ≠ .text [] → ∃ front m panel inner, before = front ++ (m, panel) :: inner ∧
      panel.name = c.parent ∧ n = m + 1 ∧ ∀ e ∈ inner, m < e.1

theorem Shown.shows (h : Shown layout 0 (children layout .null) shown) (hbuilt : Built layout) :
    Shows layout shown := by
  have ho := hbuilt.ordered
  have hparents : ∀ e ∈ shown, e.2.parent = .null ∨ ∃ name, e.2.parent = .text name := by
    intro e he
    have hmem := (h.perm ho).subset (List.mem_map_of_mem he)
    exact hbuilt.parent _ (ho.mem_controls.mp hmem)
  refine ⟨h.perm ho, fun c d hsub hholder => ?_, fun e he hparent => ?_,
    fun before n c after hsplit hnull hempty => ?_⟩
  · have hc := ho.mem_controls.mp (hsub.subset (List.mem_cons_self ..))
    have hpanel := holder_there ho hc
    have hself : [c, d].filter (fun x => (holder x).same (holder c)) = [c, d] := by
      simp [← hholder, same_of_there ho hpanel]
    have hchildren := hsub.filter fun x => (holder x).same (holder c)
    rw [hself] at hchildren
    exact hchildren.trans (h.siblings_sublist ho hpanel)
  · obtain ⟨before, after, hsplit⟩ := List.append_of_mem he
    rcases h.behind_holder ho hsplit with ⟨-, hmargin⟩ | ⟨htruthy, -⟩
    · exact hmargin
    · exact absurd ((isTruthy_iff (hparents e he)).mp htruthy)
        (not_and_or.mpr (hparent.imp not_not.mpr not_not.mpr))
  · have hmem : (n, c) ∈ shown := by simp [hsplit]
    rcases h.behind_holder ho hsplit with ⟨hfalse, -⟩ | ⟨-, hpanel⟩
    · rw [(isTruthy_iff (hparents _ hmem)).mpr ⟨hnull, hempty⟩] at hfalse
      cases hfalse
    · exact hpanel

/-- Showing the controls gives a line for each of them, or says that there are none. Where there is
no room for the line of one, or it cannot be written, the first such is what the command fails
with. -/
theorem display_forest (h : Made layout) (hcommand : command ∈ commands)
    (hname : command.name = displayer) (hcall : call.keywords = []) :
    ∃ shown, Shows layout shown ∧
      (∀ e ∈ shown, lineAt e = .ok (line e) ↔ e.1 + lineRoom e.2 < maxRoom ∧ Writable e.2) ∧
      ((∃ raised, FirstFailure lineAt shown raised ∧
          command.action.run call layout = (.failed raised, layout)) ∨
        (∀ e ∈ shown, lineAt e = .ok (line e)) ∧
          command.action.run call layout =
            (if shown.isEmpty then noControls
              else .value (.text (Text.join ['\n'] (shown.map line))), layout)) := by
  have ho := h.built.ordered
  obtain ⟨shown, hshown⟩ : ∃ shown, Shown layout 0 (children layout .null) shown :=
    exists_shown ho fun c hc => ((mem_children_null ho).mp hc).1
  obtain ⟨r, hr, hrun⟩ := run_displayer layout hcommand hname hcall
  refine ⟨shown, hshown.shows h.built, fun e he => ?_, ?_⟩
  · have hmem := ho.mem_controls.mp ((hshown.perm ho).subset (List.mem_map_of_mem he))
    obtain ⟨m, hm, htype⟩ := h.type _ hmem
    obtain ⟨name, hkey⟩ : ∃ name, e.2.name = .text name :=
      ho.exists_text (List.mem_map_of_mem hmem)
    exact lineAt_eq_line (by rw [htype, typeText_eq hm]) (by rw [hkey, Datum.print])
  · rw [hrun, display_eq hshown hr]
    by_cases hall : ∀ e ∈ shown, lineAt e = .ok (line e)
    · refine .inr ⟨hall, ?_⟩
      rw [mapM_eq_ok.mpr (forall₂_line hall)]
    · rcases mapM_cases lineAt shown with ⟨raised, hfirst, hlines⟩ | ⟨lines, -, hlines⟩
      · exact .inl ⟨raised, hfirst, by rw [hlines]⟩
      · refine absurd (fun e he => ?_) hall
        obtain ⟨s, -, hs⟩ := exists_result_of_mem hlines he
        rw [hs, eq_line hs]

theorem page_made : Made page := by
  have hmaker : maker ∈ commands := List.head_mem _
  exact .call _ (.call _ .empty hmaker (declared_making (by decide))) hmaker
    (declared_making (by decide))

theorem display_forest_page :
    Made page ∧ displaying ∈ commands ∧ displaying.name = displayer ∧
      (Call.mk [] []).keywords = [] ∧
      ∃ shown, Shows page shown ∧ (∀ e ∈ shown, lineAt e = .ok (line e)) ∧
        displaying.action.run ⟨[], []⟩ page =
          (if shown.isEmpty then noControls
            else .value (.text (Text.join ['\n'] (shown.map line))), page) := by
  have hdisplaying : displaying ∈ commands := List.get_mem ..
  obtain ⟨shown, hshown, -, hrun⟩ :=
    display_forest page_made hdisplaying rfl (rfl : (Call.mk [] []).keywords = [])
  have hvalue : ∃ d, (displaying.action.run ⟨[], []⟩ page).1 = .value d := ⟨_, rfl⟩
  refine ⟨page_made, hdisplaying, rfl, rfl, shown, hshown, hrun.resolve_left ?_⟩
  rintro ⟨raised, -, hfailed⟩
  obtain ⟨d, hd⟩ := hvalue
  rw [hfailed] at hd
  cases hd

/-- What was put into the panel of the empty name is shown beside it, and not below it. -/
theorem unnamed_not_indented :
    Made unnamed ∧
      unnamed.map (fun entry => (entry.1, entry.2.parent)) =
        [(.text [], .null), (.text "b".toList, .text [])] ∧
      displaying.action.run ⟨[], []⟩ unnamed =
        (.value (.text "Grid ''\nButton 'b'".toList), unnamed) :=
  ⟨unnamed_made, rfl, by rfl⟩

end CommandShell.Layout
