import CommandShell.Proofs.Layout.Tree

/-!
The order in which controls are shown: each behind the panel that holds it, and what one panel holds
in the order in which it was made. Since what a panel holds was made after it, there is an end to
what is nested in a control, and no control is met twice.
-/

set_option autoImplicit false

namespace CommandShell.Layout

open Relation

variable {layout : Layout} {c : Control} {key panel : Datum} {depth : Nat} {roots : List Control}
  {shown : List (Nat × Control)}

/-! ## Places -/

def place (layout : Layout) (key : Datum) : Nat := layout.findIdx (·.1.same key)

theorem place_lt_length (h : Ordered layout) (hkey : key ∈ layout.map (·.1)) :
    place layout key < layout.length := by
  obtain ⟨name, rfl⟩ := h.exists_text hkey
  obtain ⟨entry, hentry, hname⟩ := List.mem_map.mp hkey
  exact List.findIdx_lt_length_of_exists ⟨entry, hentry, Datum.same_text.mpr hname⟩

theorem place_lt (h : Ordered layout) (hholds : Holds layout panel key) :
    place layout panel < place layout key := by
  obtain ⟨name, rfl⟩ := h.exists_text (h.holds_there hholds)
  obtain ⟨c, hc, hparent, heq⟩ := hholds
  obtain ⟨own, rfl⟩ := h.exists_text (List.mem_map_of_mem hc)
  obtain ⟨before, after, hsplit⟩ := List.append_of_mem hc
  obtain ⟨host, hhost, -⟩ := h.host hsplit hparent
  have hpanel : before.findIdx (·.1.same (.text name)) < before.length :=
    List.findIdx_lt_length_of_exists ⟨_, hhost, Datum.same_text.mpr heq⟩
  have hown : ¬ before.findIdx (·.1.same (.text own)) < before.length := by
    intro hlt
    obtain ⟨other, hother, hsame⟩ := List.findIdx_lt_length.mp hlt
    have hnodup := h.nodup
    rw [hsplit, List.map_append, List.nodup_append] at hnodup
    exact hnodup.2.2 _ (List.mem_map_of_mem hother) _ (List.mem_cons_self ..)
      (Datum.same_text.mp hsame)
  rw [place, place, hsplit, List.findIdx_append, List.findIdx_append, if_pos hpanel, if_neg hown]
  omega

/-! ## Children -/

theorem mem_children_null (h : Ordered layout) :
    c ∈ children layout .null ↔ (c.name, c) ∈ layout ∧ c.parent.isTruthy = false := by
  have hholder : (holder c).same .null = true ↔ c.parent.isTruthy = false := by
    rw [holder]
    split
    · rename_i hparent
      rw [hparent]
      cases hvalue : c.parent <;> simp_all [Datum.same, Datum.isTruthy]
    · rename_i hparent
      simpa [Datum.same] using hparent
  rw [children, List.mem_filter, hholder, h.mem_controls]

theorem holder_there (h : Ordered layout) (hc : (c.name, c) ∈ layout) :
    holder c = .null ∨ holder c ∈ layout.map (·.1) := by
  rw [holder]
  split
  · rename_i hparent
    exact .inr (h.holds_there ⟨c, hc, hparent, rfl⟩)
  · exact .inl rfl

theorem same_of_there (h : Ordered layout) (hpanel : panel = .null ∨ panel ∈ layout.map (·.1)) :
    panel.same panel = true := by
  obtain rfl | hthere := hpanel
  · rfl
  · obtain ⟨name, rfl⟩ := h.exists_text hthere
    exact Datum.text_same.mpr rfl

theorem place_lt_of_mem_children (h : Ordered layout) (hpanel : panel ∈ layout.map (·.1))
    (hc : c ∈ children layout panel) : place layout panel < place layout c.name :=
  place_lt h (holds_children h hpanel (List.mem_map_of_mem hc))

/-! ## What is nested in one control and not in another -/

theorem Ordered.holds_unique (h : Ordered layout) {other : Datum} (hpanel : Holds layout panel key)
    (hother : Holds layout other key) : panel = other := by
  obtain ⟨c, hc, -, rfl⟩ := hpanel
  obtain ⟨d, hd, -, rfl⟩ := hother
  rw [h.control_eq hc hd]

/-- Of two controls that a third is nested in, one is nested in the other. -/
theorem Ordered.comparable (h : Ordered layout) {a b : Datum}
    (ha : ReflTransGen (Holds layout) a key) (hb : ReflTransGen (Holds layout) b key) :
    ReflTransGen (Holds layout) a b ∨ ReflTransGen (Holds layout) b a := by
  have hunique : Relator.RightUnique (Function.swap (Holds layout)) :=
    fun _ _ _ hpanel hother => h.holds_unique hpanel hother
  have htotal := ReflTransGen.total_of_right_unique hunique (reflTransGen_swap.mpr ha)
    (reflTransGen_swap.mpr hb)
  simp only [reflTransGen_swap] at htotal
  exact htotal.symm

def Unrelated (layout : Layout) (a b : Control) : Prop :=
  ¬ ReflTransGen (Holds layout) a.name b.name ∧ ¬ ReflTransGen (Holds layout) b.name a.name

theorem unrelated_children (h : Ordered layout)
    (hpanel : panel = .null ∨ panel ∈ layout.map (·.1)) :
    (children layout panel).Pairwise (Unrelated layout) := by
  have hnot : ∀ a ∈ children layout panel, ∀ b ∈ children layout panel, a.name ≠ b.name →
      ¬ ReflTransGen (Holds layout) a.name b.name := by
    intro a ha b hb hne hreached
    obtain heq | ⟨other, hother, hholds⟩ := hreached.cases_tail
    · exact hne heq.symm
    obtain rfl | hthere := hpanel
    · obtain ⟨hmem, hnone⟩ := (mem_children_null h).mp hb
      obtain ⟨c, hc, hparent, -⟩ := hholds
      rw [h.control_eq hc hmem, hnone] at hparent
      cases hparent
    · have hown := holds_children h hthere (List.mem_map_of_mem hb)
      rw [h.holds_unique hholds hown] at hother
      exact h.acyclic _ (.head' (holds_children h hthere (List.mem_map_of_mem ha)) hother)
  exact (List.pairwise_map.mp (nodup_children h panel)).imp_of_mem fun ha hb hne =>
    ⟨hnot _ ha _ hb hne, hnot _ hb _ ha (Ne.symm hne)⟩

theorem split_append {α : Type} {xs ys before after : List α} {x : α}
    (h : xs ++ ys = before ++ x :: after) :
    (∃ more, xs = before ++ x :: more) ∨
      ∃ middle, before = xs ++ middle ∧ ys = middle ++ x :: after := by
  rcases List.append_eq_append_iff.mp h with hlater | ⟨middle, rfl, hmiddle⟩
  · exact .inr hlater
  · cases middle with
    | nil => exact .inr ⟨[], by simp, by simpa using hmiddle.symm⟩
    | cons y middle =>
      obtain ⟨rfl, -⟩ := List.cons.inj hmiddle
      exact .inl ⟨middle, rfl⟩

/-! ## The order in which controls are shown -/

/-- Controls with how deep they are nested, in the order in which they are shown: each in front of
all that it holds, and that in front of the next one. -/
inductive Shown (layout : Layout) : Nat → List Control → List (Nat × Control) → Prop where
  | nil {depth : Nat} : Shown layout depth [] []
  | cons {depth : Nat} {c : Control} {roots : List Control} {inner outer : List (Nat × Control)} :
      Shown layout (depth + 1) (children layout c.name) inner → Shown layout depth roots outer →
      Shown layout depth (c :: roots) ((depth, c) :: (inner ++ outer))

theorem exists_shown_of_inner
    (hinner : ∀ c ∈ roots, ∃ inner, Shown layout (depth + 1) (children layout c.name) inner) :
    ∃ shown, Shown layout depth roots shown := by
  induction roots with
  | nil => exact ⟨_, .nil⟩
  | cons c roots ih =>
    obtain ⟨⟨inner, hc⟩, hroots⟩ := List.forall_mem_cons.mp hinner
    obtain ⟨outer, hrest⟩ := ih hroots
    exact ⟨_, .cons hc hrest⟩

/-- There is an end to what a control holds: the later it was made, the fewer can be nested in
it. -/
theorem exists_shown_children (h : Ordered layout) {n : Nat} (hkey : key ∈ layout.map (·.1))
    (hn : layout.length ≤ place layout key + n) :
    ∃ inner, Shown layout depth (children layout key) inner := by
  induction n generalizing key depth with
  | zero => exact absurd (place_lt_length h hkey) (by omega)
  | succ n ih =>
    refine exists_shown_of_inner fun c hc => ?_
    have hlt := place_lt_of_mem_children h hkey hc
    have hc := ((mem_children_of_there h hkey).mp hc).1
    exact ih (List.mem_map_of_mem hc) (by omega)

theorem exists_shown (h : Ordered layout) (hroots : ∀ c ∈ roots, (c.name, c) ∈ layout) :
    ∃ shown, Shown layout depth roots shown :=
  exists_shown_of_inner fun c hc =>
    exists_shown_children h (List.mem_map_of_mem (hroots c hc)) (Nat.le_add_left ..)

namespace Shown

theorem depth_le (h : Shown layout depth roots shown) : ∀ e ∈ shown, depth ≤ e.1 := by
  induction h with
  | nil => exact fun _ he => nomatch he
  | cons _ _ ihinner ihouter =>
    refine List.forall_mem_cons.mpr ⟨Nat.le_refl _, fun e he => ?_⟩
    rcases List.mem_append.mp he with he | he
    · exact Nat.le_of_succ_le (ihinner e he)
    · exact ihouter e he

theorem roots_sublist (h : Shown layout depth roots shown) : roots.Sublist (shown.map (·.2)) := by
  induction h with
  | nil => exact .slnil
  | cons _ _ _ ihouter =>
    rw [List.map_cons, List.map_append]
    exact (ihouter.trans (List.sublist_append_right ..)).cons_cons _

theorem children_sublist (h : Shown layout depth roots shown) :
    ∀ e ∈ shown, (children layout e.2.name).Sublist (shown.map (·.2)) := by
  induction h with
  | nil => exact fun _ he => nomatch he
  | cons hinner _ ihinner ihouter =>
    simp only [List.map_cons, List.map_append, List.forall_mem_cons, List.mem_append]
    refine ⟨((hinner.roots_sublist).trans (List.sublist_append_left ..)).cons _, fun e he => ?_⟩
    rcases he with he | he
    · exact ((ihinner e he).trans (List.sublist_append_left ..)).cons _
    · exact ((ihouter e he).trans (List.sublist_append_right ..)).cons _

theorem reached (h : Shown layout depth roots shown) (ho : Ordered layout)
    (hroots : ∀ c ∈ roots, (c.name, c) ∈ layout) :
    ∀ e ∈ shown, (e.2.name, e.2) ∈ layout ∧
      ∃ root ∈ roots, ReflTransGen (Holds layout) root.name e.2.name := by
  induction h with
  | nil => exact fun _ he => nomatch he
  | @cons depth c roots inner outer hinner _ ihinner ihouter =>
    obtain ⟨hc, hrest⟩ := List.forall_mem_cons.mp hroots
    have hthere : c.name ∈ layout.map (·.1) := List.mem_map_of_mem hc
    refine List.forall_mem_cons.mpr ⟨⟨hc, c, List.mem_cons_self .., .refl⟩, fun e he => ?_⟩
    rcases List.mem_append.mp he with he | he
    · obtain ⟨hmem, child, hchild, hreached⟩ :=
        ihinner (fun d hd => ((mem_children_of_there ho hthere).mp hd).1) e he
      exact ⟨hmem, c, List.mem_cons_self ..,
        .head (holds_children ho hthere (List.mem_map_of_mem hchild)) hreached⟩
    · obtain ⟨hmem, root, hroot, hreached⟩ := ihouter hrest e he
      exact ⟨hmem, root, List.mem_cons_of_mem _ hroot, hreached⟩

/-- A control comes behind the one that holds it, with nothing in between but what that one holds as
well, directly or not. -/
theorem behind_panel (h : Shown layout depth roots shown) {before after : List (Nat × Control)}
    {n : Nat} (hsplit : shown = before ++ (n, c) :: after) :
    n = depth ∧ c ∈ roots ∨ ∃ front m panel inner, before = front ++ (m, panel) :: inner ∧
      n = m + 1 ∧ c ∈ children layout panel.name ∧ ∀ e ∈ inner, m < e.1 := by
  induction h generalizing before after with
  | nil => simp at hsplit
  | @cons depth root roots deeper others hinner _ ihinner ihouter =>
    cases before with
    | nil =>
      obtain ⟨⟨⟩, -⟩ := List.cons.inj hsplit
      exact .inl ⟨rfl, List.mem_cons_self ..⟩
    | cons first before =>
      obtain ⟨rfl, hrest⟩ := List.cons.inj hsplit
      rcases split_append hrest with ⟨more, rfl⟩ | ⟨middle, rfl, rfl⟩
      · rcases ihinner rfl with ⟨rfl, hc⟩ | ⟨front, m, panel, inner, rfl, hpanel⟩
        · exact .inr ⟨[], depth, root, before, rfl, rfl, hc, fun e he =>
            hinner.depth_le e (List.mem_append_left _ he)⟩
        · exact .inr ⟨_ :: front, m, panel, inner, rfl, hpanel⟩
      · rcases ihouter rfl with ⟨rfl, hc⟩ | ⟨front, m, panel, inner, rfl, hpanel⟩
        · exact .inl ⟨rfl, List.mem_cons_of_mem _ hc⟩
        · exact .inr ⟨(depth, root) :: (deeper ++ front), m, panel, inner, by simp, hpanel⟩

theorem nodup (h : Shown layout depth roots shown) (ho : Ordered layout)
    (hroots : ∀ c ∈ roots, (c.name, c) ∈ layout) (hapart : roots.Pairwise (Unrelated layout)) :
    (shown.map (·.2)).Nodup := by
  induction h with
  | nil => exact List.nodup_nil
  | @cons depth c roots inner outer hinner houter ihinner ihouter =>
    obtain ⟨hc, hrest⟩ := List.forall_mem_cons.mp hroots
    obtain ⟨hfirst, hothers⟩ := List.pairwise_cons.mp hapart
    have hthere : c.name ∈ layout.map (·.1) := List.mem_map_of_mem hc
    have hchildren : ∀ d ∈ children layout c.name, (d.name, d) ∈ layout :=
      fun d hd => ((mem_children_of_there ho hthere).mp hd).1
    -- what is nested in the first root
    have hbelow : ∀ e ∈ inner, TransGen (Holds layout) c.name e.2.name := by
      intro e he
      obtain ⟨-, child, hchild, hreached⟩ := hinner.reached ho hchildren e he
      exact .head' (holds_children ho hthere (List.mem_map_of_mem hchild)) hreached
    rw [List.map_cons, List.map_append, List.nodup_cons, List.nodup_append, List.mem_append]
    refine ⟨?_, ihinner hchildren (unrelated_children ho (.inr hthere)), ihouter hrest hothers, ?_⟩
    · rintro (hmem | hmem)
      · obtain ⟨e, he, rfl⟩ := List.mem_map.mp hmem
        exact ho.acyclic _ (hbelow e he)
      · obtain ⟨e, he, rfl⟩ := List.mem_map.mp hmem
        obtain ⟨-, root, hroot, hreached⟩ := houter.reached ho hrest e he
        exact (hfirst root hroot).2 hreached
    · rintro _ hx _ hy rfl
      obtain ⟨e, he, rfl⟩ := List.mem_map.mp hx
      obtain ⟨e', he', heq⟩ := List.mem_map.mp hy
      obtain ⟨-, root, hroot, hreached⟩ := houter.reached ho hrest e' he'
      rw [heq] at hreached
      rcases ho.comparable (hbelow e he).to_reflTransGen hreached with hlow | hlow
      · exact (hfirst root hroot).1 hlow
      · exact (hfirst root hroot).2 hlow

theorem mem_of_there (h : Shown layout depth (children layout .null) shown) (ho : Ordered layout)
    (hc : (c.name, c) ∈ layout) : c ∈ shown.map (·.2) := by
  induction hplace : place layout c.name using Nat.strongRecOn generalizing c with
  | _ n ih =>
    by_cases hparent : c.parent.isTruthy = true
    · have hholds : Holds layout c.parent c.name := ⟨c, hc, hparent, rfl⟩
      have hthere := ho.holds_there hholds
      obtain ⟨⟨_, panel⟩, hpanel, rfl⟩ := List.mem_map.mp hthere
      have hname : panel.name = c.parent := ho.name_eq _ hpanel
      obtain ⟨e, he, rfl⟩ := List.mem_map.mp
        (ih _ (hplace ▸ place_lt ho hholds) (hname.symm ▸ hpanel) (by rw [hname]))
      refine (h.children_sublist e he).subset ?_
      rw [hname]
      exact (mem_children_of_there ho hthere).mpr ⟨hc, hparent, rfl⟩
    · exact h.roots_sublist.subset ((mem_children_null ho).mpr ⟨hc, by simpa using hparent⟩)

theorem siblings_sublist (h : Shown layout depth (children layout .null) shown)
    (ho : Ordered layout) (hpanel : panel = .null ∨ panel ∈ layout.map (·.1)) :
    (children layout panel).Sublist (shown.map (·.2)) := by
  obtain rfl | hthere := hpanel
  · exact h.roots_sublist
  · obtain ⟨⟨_, host⟩, hhost, rfl⟩ := List.mem_map.mp hthere
    obtain rfl : host.name = _ := ho.name_eq _ hhost
    obtain ⟨e, he, rfl⟩ := List.mem_map.mp (h.mem_of_there ho hhost)
    exact h.children_sublist e he

theorem behind_holder (h : Shown layout 0 (children layout .null) shown) (ho : Ordered layout)
    {before after : List (Nat × Control)} {n : Nat} (hsplit : shown = before ++ (n, c) :: after) :
    c.parent.isTruthy = false ∧ n = 0 ∨ c.parent.isTruthy = true ∧
      ∃ front m panel inner, before = front ++ (m, panel) :: inner ∧ panel.name = c.parent ∧
        n = m + 1 ∧ ∀ e ∈ inner, m < e.1 := by
  rcases h.behind_panel hsplit with ⟨rfl, hc⟩ | ⟨front, m, panel, inner, hbefore, hn, hc, hinner⟩
  · exact .inl ⟨((mem_children_null ho).mp hc).2, rfl⟩
  · have hshown : (m, panel) ∈ shown := by simp [hsplit, hbefore]
    have hpanel := (h.reached ho (fun d hd => ((mem_children_null ho).mp hd).1) _ hshown).1
    obtain ⟨-, hparent, heq⟩ := (mem_children_of_there ho (List.mem_map_of_mem hpanel)).mp hc
    exact .inr ⟨hparent, front, m, panel, inner, hbefore, heq.symm, hn, hinner⟩

theorem perm (h : Shown layout depth (children layout .null) shown) (ho : Ordered layout) :
    (shown.map (·.2)).Perm (layout.map (·.2)) := by
  have hroots : ∀ c ∈ children layout .null, (c.name, c) ∈ layout :=
    fun c hc => ((mem_children_null ho).mp hc).1
  have hcontrols : (layout.map (·.2)).Nodup := List.Nodup.of_map _ ho.nodup_names
  refine (List.perm_ext_iff_of_nodup
    (h.nodup ho hroots (unrelated_children ho (.inl rfl))) hcontrols).mpr fun c => ?_
  rw [ho.mem_controls]
  refine ⟨fun hc => ?_, h.mem_of_there ho⟩
  obtain ⟨e, he, rfl⟩ := List.mem_map.mp hc
  exact (h.reached ho hroots e he).1

end Shown

end CommandShell.Layout
