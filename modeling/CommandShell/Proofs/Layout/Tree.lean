import CommandShell.Layout.Commands
import Mathlib.Data.List.Nodup
import Mathlib.Data.List.Perm.Subperm
import Mathlib.Logic.Relation

/-!
Controls that were made one after another, each in a panel that was there before it. Their names
are apart, no control is nested in itself, and going through all that is nested in one comes to an
end.
-/

set_option autoImplicit false

namespace CommandShell

namespace Datum

theorem same_text {d : Datum} {s : Text} : d.same (.text s) = true ↔ d = .text s := by
  cases d <;> simp [same]

theorem text_same {d : Datum} {s : Text} : (Datum.text s).same d = true ↔ d = .text s := by
  cases d with
  | text t => simpa [same] using eq_comm
  | _ => simp [same]

end Datum

namespace Layout

variable {layout : Layout} {c : Control} {key panel root : Datum} {done queue : List Datum}

/-- Controls that were added one after another: each under a name that no other had in any case, and
in no panel or in one that was there. -/
inductive Ordered : Layout → Prop where
  | nil : Ordered []
  | add {layout : Layout} {name : Text} {c : Control} : Ordered layout → c.name = .text name →
      (∀ entry ∈ layout, lowered entry.1 ≠ .ok (Text.lower name)) →
      (c.parent.isTruthy = true →
        ∃ panel, (c.parent, panel) ∈ layout ∧ isPanel panel = .ok true) →
      Ordered (layout ++ [(.text name, c)])

/-- A panel holds a control, both by name. -/
def Holds (layout : Layout) (panel key : Datum) : Prop :=
  ∃ c, (key, c) ∈ layout ∧ c.parent.isTruthy = true ∧ c.parent = panel

namespace Ordered

theorem names (h : Ordered layout) :
    ∃ names : List Text, layout.map (·.1) = names.map .text ∧ (names.map Text.lower).Nodup := by
  induction h with
  | nil => exact ⟨[], rfl, List.nodup_nil⟩
  | @add layout name c _ _ hfree _ ih =>
    obtain ⟨names, hkeys, hnodup⟩ := ih
    refine ⟨names ++ [name], by simp [hkeys], ?_⟩
    rw [List.map_append, List.nodup_append]
    refine ⟨hnodup, by simp, fun a ha b hb he => ?_⟩
    obtain ⟨other, hother, rfl⟩ := List.mem_map.mp ha
    obtain rfl := List.mem_singleton.mp hb
    obtain ⟨entry, hentry, hkey⟩ := List.mem_map.mp (hkeys ▸ List.mem_map_of_mem hother)
    exact hfree entry hentry (by rw [hkey, lowered, he])

theorem nodup (h : Ordered layout) : (layout.map (·.1)).Nodup := by
  obtain ⟨names, hkeys, hnodup⟩ := h.names
  rw [hkeys]
  exact (List.Nodup.of_map _ hnodup).map fun _ _ => Datum.text.inj

theorem exists_text (h : Ordered layout) (hkey : key ∈ layout.map (·.1)) :
    ∃ name, key = .text name := by
  obtain ⟨names, hkeys, -⟩ := h.names
  obtain ⟨name, -, rfl⟩ := List.mem_map.mp (hkeys ▸ hkey)
  exact ⟨name, rfl⟩

theorem name_eq (h : Ordered layout) : ∀ entry ∈ layout, entry.2.name = entry.1 := by
  induction h with
  | nil => exact fun _ hentry => nomatch hentry
  | add _ hname _ _ ih =>
    intro entry hentry
    rcases List.mem_append.mp hentry with hentry | hentry
    · exact ih entry hentry
    · rw [List.mem_singleton.mp hentry, hname]

theorem control_eq (h : Ordered layout) {d : Control} (hc : (key, c) ∈ layout)
    (hd : (key, d) ∈ layout) : c = d :=
  congrArg Prod.snd (List.inj_on_of_nodup_map h.nodup hc hd rfl)

theorem host (h : Ordered layout) {before after : Layout}
    (hsplit : layout = before ++ (key, c) :: after) (hparent : c.parent.isTruthy = true) :
    ∃ panel, (c.parent, panel) ∈ before ∧ isPanel panel = .ok true := by
  induction h generalizing after with
  | nil => simp at hsplit
  | @add layout name d _ _ _ hhost ih =>
    rcases List.eq_nil_or_concat after with rfl | ⟨more, last, rfl⟩
    · obtain ⟨rfl, hlast⟩ := List.append_inj' hsplit rfl
      obtain ⟨-, rfl⟩ := Prod.mk.inj (List.singleton_inj.mp hlast)
      exact hhost hparent
    · rw [List.concat_eq_append, ← List.cons_append, ← List.append_assoc] at hsplit
      exact ih (List.append_inj' hsplit rfl).1

/-! ## Nesting -/

theorem holds_there (h : Ordered layout) (hholds : Holds layout panel key) :
    panel ∈ layout.map (·.1) := by
  obtain ⟨c, hc, hparent, rfl⟩ := hholds
  obtain ⟨before, after, hsplit⟩ := List.append_of_mem hc
  obtain ⟨panel, hpanel, -⟩ := h.host hsplit hparent
  rw [hsplit, List.map_append]
  exact List.mem_append_left _ (List.mem_map_of_mem hpanel)

theorem holds_before {name : Text} {d : Control}
    (hfree : ∀ entry ∈ layout, lowered entry.1 ≠ .ok (Text.lower name))
    (hholds : Holds (layout ++ [(.text name, d)]) panel key) (hkey : key ∈ layout.map (·.1)) :
    Holds layout panel key := by
  obtain ⟨c, hc, hparent⟩ := hholds
  rcases List.mem_append.mp hc with hc | hc
  · exact ⟨c, hc, hparent⟩
  · obtain ⟨rfl, -⟩ := Prod.mk.inj (List.mem_singleton.mp hc)
    obtain ⟨entry, hentry, hname⟩ := List.mem_map.mp hkey
    exact absurd (by rw [hname, lowered]) (hfree entry hentry)

theorem nested_before (h : Ordered layout) {name : Text} {d : Control}
    (hfree : ∀ entry ∈ layout, lowered entry.1 ≠ .ok (Text.lower name))
    (hnested : Relation.TransGen (Holds (layout ++ [(.text name, d)])) panel key)
    (hkey : key ∈ layout.map (·.1)) : Relation.TransGen (Holds layout) panel key := by
  induction hnested with
  | single hstep => exact .single (holds_before hfree hstep hkey)
  | tail _ hstep ih =>
    have hlast := holds_before hfree hstep hkey
    exact .tail (ih (h.holds_there hlast)) hlast

/-- No control is nested in itself. The last control that was added holds none, so that a cycle
would have been there before. -/
theorem acyclic (h : Ordered layout) (key : Datum) :
    ¬ Relation.TransGen (Holds layout) key key := by
  induction h generalizing key with
  | nil =>
    intro hcycle
    obtain ⟨_, ⟨_, hc, -⟩, -⟩ := Relation.TransGen.head'_iff.mp hcycle
    cases hc
  | @add layout name d hrest _ hfree hhost ih =>
    intro hcycle
    obtain ⟨b, ⟨c, hc, hparent, rfl⟩, -⟩ := Relation.TransGen.head'_iff.mp hcycle
    refine ih _ (nested_before hrest hfree hcycle ?_)
    rcases List.mem_append.mp hc with hc | hc
    · exact hrest.holds_there ⟨c, hc, hparent, rfl⟩
    · obtain ⟨-, rfl⟩ := Prod.mk.inj (List.mem_singleton.mp hc)
      obtain ⟨panel, hpanel, -⟩ := hhost hparent
      exact List.mem_map_of_mem hpanel

end Ordered

/-! ## The work list -/

/-- Names are taken from a list one after another, each followed by those of the controls that it
holds, until none is left. -/
inductive Drained (layout : Layout) : List Datum → List Datum → Prop where
  | nil : Drained layout [] []
  | cons {name : Datum} {queue names : List Datum} :
      Drained layout (queue ++ (children layout name).map (·.name)) names →
      Drained layout (name :: queue) (name :: names)

theorem Drained.subset {names : List Datum} (h : Drained layout queue names) : queue ⊆ names := by
  induction h with
  | nil => exact List.Subset.refl _
  | cons _ ih =>
    exact List.cons_subset_cons _ (List.Subset.trans (List.subset_append_left _ _) ih)

theorem Drained.closed {names : List Datum} (h : Drained layout queue names) :
    ∀ name ∈ names, ∀ c ∈ children layout name, c.name ∈ names := by
  induction h with
  | nil => exact fun _ hname => nomatch hname
  | cons hrest ih =>
    intro name hname c hc
    refine List.mem_cons_of_mem _ ?_
    rcases List.mem_cons.mp hname with rfl | hname
    · exact hrest.subset (List.mem_append_right _ (List.mem_map_of_mem hc))
    · exact ih name hname c hc

theorem Ordered.mem_controls (h : Ordered layout) :
    c ∈ layout.map (·.2) ↔ (c.name, c) ∈ layout := by
  constructor
  · intro hc
    obtain ⟨entry, hentry, rfl⟩ := List.mem_map.mp hc
    rw [h.name_eq entry hentry]
    exact hentry
  · exact fun hc => List.mem_map_of_mem hc

theorem mem_children {c : Control} (h : Ordered layout) {name : Text} :
    c ∈ children layout (.text name) ↔
      (c.name, c) ∈ layout ∧ c.parent.isTruthy = true ∧ c.parent = .text name := by
  have hholder : (holder c).same (.text name) = true ↔
      c.parent.isTruthy = true ∧ c.parent = .text name := by
    rw [Datum.same_text, holder]
    split
    · rename_i hparent
      simp [hparent]
    · rename_i hparent
      simp [hparent]
  rw [children, List.mem_filter, hholder, h.mem_controls]

theorem mem_children_of_there (h : Ordered layout) (hpanel : panel ∈ layout.map (·.1)) :
    c ∈ children layout panel ↔
      (c.name, c) ∈ layout ∧ c.parent.isTruthy = true ∧ c.parent = panel := by
  obtain ⟨name, rfl⟩ := h.exists_text hpanel
  exact mem_children h

theorem holds_children (h : Ordered layout) (hpanel : panel ∈ layout.map (·.1))
    (hkey : key ∈ (children layout panel).map (·.name)) : Holds layout panel key := by
  obtain ⟨c, hc, rfl⟩ := List.mem_map.mp hkey
  obtain ⟨hentry, hparent, heq⟩ := (mem_children_of_there h hpanel).mp hc
  exact ⟨c, hentry, hparent, heq⟩

theorem Ordered.nodup_names (h : Ordered layout) : ((layout.map (·.2)).map (·.name)).Nodup := by
  have hkeys : (layout.map (·.2)).map (·.name) = layout.map (·.1) := by
    rw [List.map_map]
    exact List.map_congr_left h.name_eq
  exact hkeys ▸ h.nodup

theorem nodup_children (h : Ordered layout) (name : Datum) :
    ((children layout name).map (·.name)).Nodup :=
  h.nodup_names.sublist (List.filter_sublist.map _)

/-- What has been taken from a work list that began with one control and what is still on it: all
different, all nested in that control, and each but that control itself behind the panel that holds
it. -/
structure Visit (layout : Layout) (root : Datum) (done queue : List Datum) : Prop where
  nodup : (done ++ queue).Nodup
  there : done ++ queue ⊆ layout.map (·.1)
  reached : ∀ name ∈ done ++ queue, Relation.ReflTransGen (Holds layout) root name
  held : ∀ name ∈ done ++ queue, name = root ∨ ∃ panel ∈ done, Holds layout panel name

theorem Visit.first (hroot : root ∈ layout.map (·.1)) : Visit layout root [] [root] where
  nodup := List.nodup_singleton root
  there := by simpa using hroot
  reached := by
    intro name hname
    rw [List.mem_singleton.mp hname]
  held := fun name hname => .inl (List.mem_singleton.mp hname)

/-- The controls that a panel holds are new when its turn comes: the root is nested in none of what
is nested in it, and any other stands behind the panel that holds it. -/
theorem Visit.new {name : Datum} (ho : Ordered layout)
    (h : Visit layout root done (name :: queue)) (hholds : Holds layout name key) :
    key ∉ done ++ name :: queue := by
  intro hold
  rcases h.held key hold with rfl | ⟨panel, hpanel, hother⟩
  · exact ho.acyclic _ (.tail' (h.reached _ (by simp)) hholds)
  · obtain ⟨c, hc, -, rfl⟩ := hholds
    obtain ⟨d, hd, -, rfl⟩ := hother
    rw [← ho.control_eq hc hd] at hpanel
    exact (List.nodup_append.mp h.nodup).2.2 _ hpanel _ (List.mem_cons_self ..) rfl

theorem Visit.next {name : Datum} (ho : Ordered layout)
    (h : Visit layout root done (name :: queue)) :
    Visit layout root (done ++ [name]) (queue ++ (children layout name).map (·.name)) := by
  have hmem : name ∈ done ++ name :: queue :=
    List.mem_append_right _ (List.mem_cons_self ..)
  have hholds : ∀ key ∈ (children layout name).map (·.name), Holds layout name key :=
    fun key hkey => holds_children ho (h.there hmem) hkey
  have hlist : (done ++ [name]) ++ (queue ++ (children layout name).map (·.name)) =
      (done ++ name :: queue) ++ (children layout name).map (·.name) := by simp
  constructor
  · rw [hlist, List.nodup_append]
    exact ⟨h.nodup, nodup_children ho _, fun a ha b hb he => h.new ho (hholds b hb) (he ▸ ha)⟩
  · rw [hlist]
    refine List.append_subset.mpr ⟨h.there, fun key hkey => ?_⟩
    obtain ⟨c, hc, -⟩ := hholds key hkey
    exact List.mem_map_of_mem hc
  · intro key hkey
    rw [hlist] at hkey
    rcases List.mem_append.mp hkey with hkey | hkey
    · exact h.reached key hkey
    · exact .tail (h.reached _ hmem) (hholds key hkey)
  · intro key hkey
    rw [hlist] at hkey
    rcases List.mem_append.mp hkey with hkey | hkey
    · exact (h.held key hkey).imp_right fun ⟨panel, hpanel, hstep⟩ =>
        ⟨panel, List.mem_append_left _ hpanel, hstep⟩
    · exact .inr ⟨_, List.mem_append_right _ (List.mem_singleton_self _), hholds key hkey⟩

/-- Once as many names are taken as there are controls, none is left. -/
theorem Visit.queue_eq_nil (h : Visit layout root done queue)
    (hlength : layout.length ≤ done.length) : queue = [] := by
  have hle : (done ++ queue).length ≤ layout.length := by
    simpa using (List.subperm_of_subset h.nodup h.there).length_le
  rw [List.length_append] at hle
  exact List.length_eq_zero_iff.mp (by omega)

theorem Visit.drained (ho : Ordered layout) {fuel : Nat} (h : Visit layout root done queue)
    (hfuel : layout.length ≤ done.length + fuel) :
    Drained layout queue (nested layout fuel queue) := by
  induction fuel generalizing done queue with
  | zero =>
    obtain rfl := h.queue_eq_nil hfuel
    exact .nil
  | succ fuel ih =>
    cases queue with
    | nil => exact .nil
    | cons name queue =>
      rw [nested]
      refine .cons (ih (h.next ho) ?_)
      rw [List.length_append, List.length_singleton]
      omega

theorem Visit.last (ho : Ordered layout) {fuel : Nat} (h : Visit layout root done queue)
    (hfuel : layout.length ≤ done.length + fuel) :
    Visit layout root (done ++ nested layout fuel queue) [] := by
  induction fuel generalizing done queue with
  | zero =>
    obtain rfl := h.queue_eq_nil hfuel
    simpa [nested] using h
  | succ fuel ih =>
    cases queue with
    | nil => simpa [nested] using h
    | cons name queue =>
      have hlast := ih (h.next ho) (by rw [List.length_append, List.length_singleton]; omega)
      rwa [List.append_assoc, List.singleton_append] at hlast

theorem drained_nested (h : Ordered layout) (hroot : root ∈ layout.map (·.1)) :
    Drained layout [root] (nested layout layout.length [root]) :=
  (Visit.first hroot).drained h (by simp)

theorem visit_nested (h : Ordered layout) (hroot : root ∈ layout.map (·.1)) :
    Visit layout root (nested layout layout.length [root]) [] :=
  (Visit.first hroot).last h (by simp)

/-! ## The tree -/

structure Tree (layout : Layout) : Prop where
  /-- A control stands under its own name. -/
  name_eq : ∀ entry ∈ layout, entry.2.name = entry.1
  /-- Names are texts that differ in more than case. -/
  names : ∃ names : List Text, layout.map (·.1) = names.map .text ∧ (names.map Text.lower).Nodup
  /-- What a control is in is the name of a panel that was made before it. -/
  host : ∀ (before after : Layout) (key : Datum) (c : Control),
    layout = before ++ (key, c) :: after → c.parent.isTruthy = true →
      ∃ panel, (c.parent, panel) ∈ before ∧ isPanel panel = .ok true
  /-- No control is nested in itself. -/
  acyclic : ∀ key, ¬ Relation.TransGen (Holds layout) key key
  /-- Going through a control and all that is nested in it comes to an end. -/
  drained : ∀ key ∈ layout.map (·.1), Drained layout [key] (nested layout layout.length [key])

theorem Ordered.tree (h : Ordered layout) : Tree layout where
  name_eq := h.name_eq
  names := h.names
  host _ _ _ _ hsplit hparent := h.host hsplit hparent
  acyclic := h.acyclic
  drained _ hkey := drained_nested h hkey

/-! ## Changes -/

theorem Ordered.filter (h : Ordered layout) (keeps : Datum → Bool)
    (hkeeps : ∀ entry ∈ layout, keeps entry.1 = true → entry.2.parent.isTruthy = true →
      keeps entry.2.parent = true) : Ordered (layout.filter fun entry => keeps entry.1) := by
  induction h with
  | nil => exact .nil
  | @add layout name c _ hname hfree hhost ih =>
    have hrest := ih fun entry hentry => hkeeps entry (List.mem_append_left _ hentry)
    rw [List.filter_append]
    cases hkept : keeps (.text name) with
    | false => simpa [hkept] using hrest
    | true =>
      rw [List.filter_cons_of_pos (by simpa using hkept), List.filter_nil]
      refine .add hrest hname (fun entry hentry => hfree entry (List.mem_filter.mp hentry).1) ?_
      intro hparent
      obtain ⟨panel, hpanel, htype⟩ := hhost hparent
      refine ⟨panel, List.mem_filter.mpr ⟨hpanel, ?_⟩, htype⟩
      exact hkeeps _ (List.mem_append_right _ (List.mem_singleton_self _)) hkept hparent

theorem Ordered.erase (h : Ordered layout) {names : List Datum} (hd : Drained layout queue names) :
    Ordered (erase layout names) := by
  refine h.filter (fun key => !names.any key.same) fun entry hentry hkept hparent => ?_
  rw [Bool.not_eq_true', List.any_eq_false] at hkept ⊢
  intro panel hpanel hsame
  obtain ⟨before, after, hsplit⟩ := List.append_of_mem hentry
  have hholds : Holds layout entry.2.parent entry.1 := ⟨_, hentry, hparent, rfl⟩
  obtain ⟨name, hname⟩ := h.exists_text (h.holds_there hholds)
  obtain rfl := Datum.text_same.mp (hname ▸ hsame)
  -- the panel is among the names, and so is what it holds
  have hchild : entry.2 ∈ children layout (.text name) :=
    (mem_children h).mpr ⟨h.name_eq entry hentry ▸ hentry, hparent, hname⟩
  have htaken := hd.closed _ hpanel _ hchild
  rw [h.name_eq entry hentry] at htaken
  obtain ⟨own, hown⟩ := h.exists_text (List.mem_map_of_mem hentry)
  exact hkept _ htaken (hown ▸ Datum.text_same.mpr rfl)

theorem Ordered.map (h : Ordered layout) {f : Datum × Control → Control}
    (hf : ∀ entry ∈ layout, (f entry).name = entry.2.name ∧ (f entry).type = entry.2.type ∧
      (f entry).parent = entry.2.parent) :
    Ordered (layout.map fun entry => (entry.1, f entry)) := by
  induction h with
  | nil => exact .nil
  | @add layout name c _ hown hfree hhost ih =>
    obtain ⟨hname, -, hparent⟩ := hf _ (List.mem_append_right _ (List.mem_singleton_self _))
    have hold := fun entry hentry => hf entry (List.mem_append_left _ hentry)
    rw [List.map_append]
    refine .add (ih hold) (hname ▸ hown) (fun entry hentry => ?_) fun htruthy => ?_
    · obtain ⟨old, hmem, rfl⟩ := List.mem_map.mp hentry
      exact hfree old hmem
    · rw [hparent] at htruthy ⊢
      obtain ⟨panel, hpanel, htype⟩ := hhost htruthy
      refine ⟨f (c.parent, panel), List.mem_map.mpr ⟨_, hpanel, rfl⟩, ?_⟩
      rw [isPanel, (hold _ hpanel).2.1]
      exact htype

theorem Ordered.replace (h : Ordered layout) (hc : (c.name, c) ∈ layout) {changed : Control}
    (hchanged : changed.name = c.name ∧ changed.type = c.type ∧ changed.parent = c.parent) :
    Ordered (Layout.replace layout c.name changed) := by
  obtain ⟨own, hown⟩ := h.exists_text (List.mem_map_of_mem hc)
  have hmap : Layout.replace layout c.name changed =
      layout.map fun entry => (entry.1, if entry.1.same c.name then changed else entry.2) := by
    rw [Layout.replace]
    exact List.map_congr_left fun entry _ => (apply_ite (Prod.mk entry.1) _ _ _).symm
  rw [hmap]
  refine h.map fun (key, old) hentry => ?_
  dsimp only at hown ⊢
  split
  · rename_i hkey
    rw [hown, Datum.same_text, ← hown] at hkey
    subst hkey
    rw [h.control_eq hentry hc]
    exact hchanged
  · exact ⟨rfl, rfl, rfl⟩

end Layout

end CommandShell
