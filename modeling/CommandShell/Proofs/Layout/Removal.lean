import CommandShell.Proofs.Layout.Made

/-!
What removing a control takes away: the control and all that is nested in it, and nothing else. A
control that was put into the panel of the empty name is nested in nothing, so that it stays when
the panel goes.
-/

set_option autoImplicit false

namespace CommandShell.Layout

open Relation

variable {layout : Layout} {entry : Datum × Control} {c : Control} {command : Command Layout}
  {call : Call} {r : Received} {key panel root : Datum} {name : Text}

/-! ## Nesting -/

/-- A control was put into the panel of that name. -/
def StoredIn (layout : Layout) (panel key : Datum) : Prop :=
  ∃ c, (key, c) ∈ layout ∧ c.parent ≠ .null ∧ c.parent = panel

/-- What was put into a panel is held by it, unless the name of the panel is empty. -/
theorem Built.holds_iff (h : Built layout) :
    Holds layout panel key ↔ StoredIn layout panel key ∧ panel ≠ .text [] := by
  constructor
  · rintro ⟨c, hc, hparent, rfl⟩
    obtain ⟨hnull, hempty⟩ := (isTruthy_iff (h.parent _ hc)).mp hparent
    exact ⟨⟨c, hc, hnull, rfl⟩, hempty⟩
  · rintro ⟨⟨c, hc, hnull, rfl⟩, hempty⟩
    exact ⟨c, hc, (isTruthy_iff (h.parent _ hc)).mpr ⟨hnull, hempty⟩, rfl⟩

theorem mem_nested (h : Ordered layout) (hroot : root ∈ layout.map (·.1)) :
    key ∈ nested layout layout.length [root] ↔ ReflTransGen (Holds layout) root key := by
  have hdrained := drained_nested h hroot
  constructor
  · intro hkey
    exact (visit_nested h hroot).reached key (by simpa using hkey)
  · intro hreached
    induction hreached with
    | refl => exact hdrained.subset (List.mem_singleton_self _)
    | tail _ hholds ih =>
      have hpanel := h.holds_there hholds
      obtain ⟨c, hc, hparent, heq⟩ := hholds
      obtain rfl : c.name = _ := h.name_eq _ hc
      exact hdrained.closed _ ih c ((mem_children_of_there h hpanel).mpr ⟨hc, hparent, heq⟩)

/-! ## What is left -/

theorem any_same_iff (h : Ordered layout) (hentry : entry ∈ layout) {names : List Datum} :
    names.any entry.1.same = true ↔ entry.1 ∈ names := by
  obtain ⟨own, hown⟩ := h.exists_text (List.mem_map_of_mem hentry)
  rw [hown, List.any_eq_true]
  constructor
  · rintro ⟨d, hd, hsame⟩
    exact Datum.text_same.mp hsame ▸ hd
  · exact fun hmem => ⟨_, hmem, Datum.text_same.mpr rfl⟩

theorem mem_erase (h : Ordered layout) {names : List Datum} (hentry : entry ∈ layout) :
    entry ∈ erase layout names ↔ entry.1 ∉ names := by
  rw [erase, List.mem_filter, ← any_same_iff h hentry, Bool.not_eq_true', Bool.not_eq_true]
  exact and_iff_right hentry

theorem length_erase (h : Ordered layout) {names : List Datum} (hnodup : names.Nodup)
    (hthere : names ⊆ layout.map (·.1)) :
    names.length + (erase layout names).length = layout.length := by
  let gone := layout.filter fun entry => names.any entry.1.same
  have hgone : (gone.map (·.1)).Perm names := by
    refine (List.perm_ext_iff_of_nodup (h.nodup.sublist (List.filter_sublist.map _)) hnodup).mpr ?_
    intro key
    constructor
    · intro hkey
      obtain ⟨entry, hentry, rfl⟩ := List.mem_map.mp hkey
      obtain ⟨hmem, hany⟩ := List.mem_filter.mp hentry
      exact (any_same_iff h hmem).mp hany
    · intro hkey
      obtain ⟨entry, hentry, rfl⟩ := List.mem_map.mp (hthere hkey)
      exact List.mem_map_of_mem (List.mem_filter.mpr ⟨hentry, (any_same_iff h hentry).mpr hkey⟩)
  have hlength := List.length_eq_countP_add_countP (fun entry : Datum × Control =>
    names.any entry.1.same) (l := layout)
  simp only [List.countP_eq_length_filter, decide_not, Bool.decide_eq_true] at hlength
  rw [← hgone.length_eq, List.length_map]
  exact hlength.symm

/-! ## The command -/

theorem exists_lookup (htexts : ∀ entry ∈ layout, ∃ s, entry.1 = .text s)
    (hname : ∃ entry ∈ layout, lowered entry.1 = .ok (Text.lower name)) :
    ∃ entry ∈ layout, lowered entry.1 = .ok (Text.lower name) ∧
      lookup layout (.text name) = .ok entry.2 := by
  have hfind : ∃ entry ∈ layout, lowered entry.1 = .ok (Text.lower name) ∧
      find? layout (.text name) = .ok (some entry.2) := by
    induction layout with
    | nil => simp at hname
    | cons entry layout ih =>
      obtain ⟨⟨s, hs⟩, hrest⟩ := List.forall_mem_cons.mp htexts
      obtain ⟨key, c⟩ := entry
      obtain rfl : key = .text s := hs
      by_cases hlower : Text.lower s = Text.lower name
      · exact ⟨_, List.mem_cons_self .., congrArg Except.ok hlower, if_pos hlower⟩
      · have hlater : ∃ entry ∈ layout, lowered entry.1 = .ok (Text.lower name) := by
          obtain ⟨entry, hentry, hkey⟩ := hname
          rcases List.mem_cons.mp hentry with rfl | hentry
          · exact absurd (Except.ok.inj hkey) hlower
          · exact ⟨entry, hentry, hkey⟩
        obtain ⟨entry, hentry, hkey, hfound⟩ := ih hrest hlater
        exact ⟨entry, List.mem_cons_of_mem _ hentry, hkey, (if_neg hlower).trans hfound⟩
  obtain ⟨entry, hentry, hkey, hfound⟩ := hfind
  refine ⟨entry, hentry, hkey, ?_⟩
  rw [lookup, hfound]
  rfl

def remover : Text := "Remove-Control".toList

def removing : Command Layout := commands.get ⟨3, by decide⟩

theorem run_remover (layout : Layout) (hcommand : command ∈ commands)
    (hname : command.name = remover) (hcall : call.keywords = [("name".toList, .text name)]) :
    ∃ r, argument r "name" = .text name ∧ command.action.run call layout = remove r layout := by
  obtain rfl : command = removing := command_eq hcommand (List.get_mem ..) hname
  obtain ⟨keywords, sources⟩ := call
  obtain rfl : keywords = _ := hcall
  exact ⟨_, rfl, rfl⟩

theorem Built.parent_there (h : Built layout) :
    ∀ entry ∈ layout, entry.2.parent = .null ∨ entry.2.parent = .text [] ∨
      entry.2.parent ∈ layout.map (·.1) := by
  intro entry hentry
  by_cases hparent : entry.2.parent.isTruthy = true
  · exact .inr (.inr (h.ordered.holds_there ⟨entry.2, hentry, hparent, rfl⟩))
  · rw [isTruthy_iff (h.parent entry hentry), not_and_or, not_not, not_not] at hparent
    exact hparent.imp_right .inl

/-- A control is removed with all that was put into it, over as many panels as there are between
them, as long as none of these has the empty name. -/
structure Removes (layout : Layout) (c : Control) (answer : Outcome × Layout) : Prop where
  /-- The answer says how many controls are gone. -/
  counts : ∃ n : Nat, n + answer.2.length = layout.length ∧
    answer.1 = .result true ("Removed ".toList ++ Text.ofNat n ++ " control(s).".toList)
  /-- The others stay as they are and in order. -/
  ordered : answer.2.Sublist layout
  kept : ∀ entry ∈ layout, entry ∈ answer.2 ↔ ¬ ReflTransGen
    (fun panel key => StoredIn layout panel key ∧ panel ≠ .text []) c.name entry.1
  /-- What one of them was put into is there, unless its name is empty. -/
  parent : ∀ entry ∈ answer.2, entry.2.parent = .null ∨ entry.2.parent = .text [] ∨
    entry.2.parent ∈ answer.2.map (·.1)

/-- Removing a control that is there, by its name in any case, removes it with all that is nested in
it, and nothing else. -/
theorem remove_subtree (h : Built layout) (hcommand : command ∈ commands)
    (hremover : command.name = remover) (hcall : call.keywords = [("name".toList, .text name)])
    (hname : ∃ entry ∈ layout, lowered entry.1 = .ok (Text.lower name)) :
    ∃ c : Control, (c.name, c) ∈ layout ∧ lowered c.name = .ok (Text.lower name) ∧
      Removes layout c (command.action.run call layout) := by
  have ho := h.ordered
  obtain ⟨⟨key, c⟩, hc, hlower, hlookup⟩ :=
    exists_lookup (fun entry hentry => ho.exists_text (List.mem_map_of_mem hentry)) hname
  obtain rfl : c.name = key := ho.name_eq _ hc
  have hroot : c.name ∈ layout.map (·.1) := List.mem_map_of_mem hc
  let names := nested layout layout.length [c.name]
  have hresult : command.action.run call layout = (.result true ("Removed ".toList ++
      Text.ofNat names.length ++ " control(s).".toList), erase layout names) := by
    obtain ⟨r, hr, hrun⟩ := run_remover layout hcommand hremover hcall
    rw [hrun, remove, hr, hlookup]
    simp [outcome, saying, names, bind, Except.bind, pure, Except.pure]
  have hkept : Built (erase layout names) := by
    have hrest := Built.call call h hcommand fun hcreator =>
      absurd (hremover.symm.trans hcreator) (by decide)
    rwa [hresult] at hrest
  have hrelation : (fun panel key => StoredIn layout panel key ∧ panel ≠ .text []) =
      Holds layout := funext₂ fun _ _ => propext h.holds_iff.symm
  refine ⟨c, hc, hlower, hresult ▸ ⟨⟨names.length, ?_, rfl⟩, List.filter_sublist, ?_,
    hkept.parent_there⟩⟩
  · have hvisit := visit_nested ho hroot
    exact length_erase ho (by simpa using hvisit.nodup) (by simpa using hvisit.there)
  · intro entry hentry
    rw [hrelation, mem_erase ho hentry, mem_nested ho hroot]

def removal (name : String) : Call := ⟨[("name".toList, .text name.toList)], []⟩

theorem remove_subtree_page :
    Built page ∧ removing ∈ commands ∧ removing.name = remover ∧
      (removal "ROOT").keywords = [("name".toList, .text "ROOT".toList)] ∧
      (∃ entry ∈ page, lowered entry.1 = .ok (Text.lower "ROOT".toList)) ∧
      ∃ c : Control, (c.name, c) ∈ page ∧ lowered c.name = .ok (Text.lower "ROOT".toList) ∧
        Removes page c (removing.action.run (removal "ROOT") page) := by
  have hremoving : removing ∈ commands := List.get_mem ..
  have hcall : (removal "ROOT").keywords = [("name".toList, .text "ROOT".toList)] := rfl
  have hname : ∃ entry ∈ page, lowered entry.1 = .ok (Text.lower "ROOT".toList) :=
    ⟨_, List.mem_cons_self .., rfl⟩
  exact ⟨page_built, hremoving, rfl, hcall, hname,
    remove_subtree page_built hremoving rfl hcall hname⟩

/-! ## The empty name -/

/-- The panel is removed without the button that was put into it, which is then in a panel that is
not there. -/
theorem unnamed_not_removed :
    Made unnamed ∧ StoredIn unnamed (.text []) (.text "b".toList) ∧
      ∃ c : Control, c.parent = .text [] ∧
        removing.action.run (removal "") unnamed =
          (.result true "Removed 1 control(s).".toList, [(.text "b".toList, c)]) := by
  refine ⟨unnamed_made, ⟨_, List.mem_cons_of_mem _ (List.mem_cons_self ..), nofun, rfl⟩,
    _, ?_, rfl⟩
  rfl

end CommandShell.Layout
