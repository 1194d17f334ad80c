import CommandShell.Fault
import Mathlib.Data.List.Forall2

/-!
Steps that can fail, taken one after another: the first that does ends them.
-/

set_option autoImplicit false

namespace CommandShell

variable {ε α β γ δ : Type} {f : α → Except ε β} {as : List α} {bs : List β} {e : ε}

/-- The first step that fails gives `e`; those before it succeed. -/
def FirstFailure (f : α → Except ε β) (as : List α) (e : ε) : Prop :=
  ∃ before a after, as = before ++ a :: after ∧ (∀ x ∈ before, ∃ b, f x = .ok b) ∧ f a = .error e

theorem not_firstFailure_nil : ¬ FirstFailure f [] e := by
  rintro ⟨before, a, after, hall, -⟩
  simp at hall

theorem firstFailure_cons {a : α} :
    FirstFailure f (a :: as) e ↔ f a = .error e ∨ (∃ b, f a = .ok b) ∧ FirstFailure f as e := by
  constructor
  · rintro ⟨before, x, after, hall, hbefore, hx⟩
    cases before with
    | nil =>
      obtain ⟨rfl, -⟩ := List.cons.inj hall
      exact .inl hx
    | cons first before =>
      obtain ⟨rfl, rfl⟩ := List.cons.inj hall
      obtain ⟨hfirst, hbefore⟩ := List.forall_mem_cons.mp hbefore
      exact .inr ⟨hfirst, before, x, after, rfl, hbefore, hx⟩
  · rintro (ha | ⟨ha, before, x, after, rfl, hbefore, hx⟩)
    · exact ⟨[], a, as, rfl, by simp, ha⟩
    · exact ⟨a :: before, x, after, rfl, List.forall_mem_cons.mpr ⟨ha, hbefore⟩, hx⟩

theorem firstFailure_congr {g : γ → Except ε δ} {cs : List γ}
    (h : List.Forall₂ (fun a c => ∀ e, f a = .error e ↔ g c = .error e) as cs) :
    FirstFailure f as e ↔ FirstFailure g cs e := by
  induction h with
  | nil => simp only [not_firstFailure_nil]
  | @cons a c as cs hac _ ih =>
    have hok : (∃ b, f a = .ok b) ↔ ∃ d, g c = .ok d := by
      cases ha : f a <;> cases hc : g c <;> simp_all
    rw [firstFailure_cons, firstFailure_cons, hac, hok, ih]

theorem mapM_eq_ok : as.mapM f = .ok bs ↔ List.Forall₂ (fun a b => f a = .ok b) as bs := by
  induction as generalizing bs with
  | nil => simp [pure, Except.pure, eq_comm]
  | cons a as ih =>
    rw [List.mapM_cons, List.forall₂_cons_left_iff]
    cases ha : f a with
    | error e => simp [bind, Except.bind]
    | ok b =>
      cases has : as.mapM f with
      | error e =>
        simp [bind, Except.bind, ← ih, has]
      | ok rest =>
        simp [bind, Except.bind, pure, Except.pure, ← ih, has, eq_comm]

theorem exists_of_mem_mapM {b : β} (h : as.mapM f = .ok bs) (hb : b ∈ bs) :
    ∃ a ∈ as, f a = .ok b := by
  induction mapM_eq_ok.mp h with
  | nil => cases hb
  | @cons a b' as bs ha has ih =>
    rcases List.mem_cons.mp hb with rfl | hb
    · exact ⟨a, List.mem_cons_self, ha⟩
    · obtain ⟨a', ha', hb⟩ := ih (mapM_eq_ok.mpr has) hb
      exact ⟨a', List.mem_cons_of_mem a ha', hb⟩

theorem exists_result_of_mem {a : α} (h : as.mapM f = .ok bs) (ha : a ∈ as) :
    ∃ b ∈ bs, f a = .ok b := by
  induction mapM_eq_ok.mp h with
  | nil => cases ha
  | @cons a' b as bs hb has ih =>
    rcases List.mem_cons.mp ha with rfl | ha
    · exact ⟨b, List.mem_cons_self, hb⟩
    · obtain ⟨b', hb', hresult⟩ := ih (mapM_eq_ok.mpr has) ha
      exact ⟨b', List.mem_cons_of_mem b hb', hresult⟩

theorem mapM_eq_error : as.mapM f = .error e ↔ FirstFailure f as e := by
  induction as with
  | nil => simp [pure, Except.pure, not_firstFailure_nil]
  | cons a as ih =>
    rw [List.mapM_cons, firstFailure_cons, ← ih]
    cases ha : f a with
    | error e => simp [bind, Except.bind]
    | ok b =>
      cases has : as.mapM f <;> simp [bind, Except.bind, pure, Except.pure]

theorem exists_mapM_eq_ok : (∃ bs, as.mapM f = .ok bs) ↔ ∀ a ∈ as, ∃ b, f a = .ok b := by
  constructor
  · rintro ⟨bs, h⟩ a ha
    obtain ⟨b, -, hb⟩ := exists_result_of_mem h ha
    exact ⟨b, hb⟩
  · intro h
    cases hbs : as.mapM f with
    | ok bs => exact ⟨bs, rfl⟩
    | error e =>
      obtain ⟨before, a, after, rfl, -, ha⟩ := mapM_eq_error.mp hbs
      obtain ⟨b, hb⟩ := h a (by simp)
      cases ha.symm.trans hb

theorem exists_bind_eq_ok {x : Except ε α} {g : α → Except ε β} :
    (∃ b, x >>= g = .ok b) ↔ ∃ a, x = .ok a ∧ ∃ b, g a = .ok b := by
  cases x <;> simp [bind, Except.bind]

theorem mapM_cases (f : α → Except ε β) (as : List α) :
    (∃ e, FirstFailure f as e ∧ as.mapM f = .error e) ∨
      ∃ bs, List.Forall₂ (fun a b => f a = .ok b) as bs ∧ as.mapM f = .ok bs := by
  cases h : as.mapM f with
  | error e => exact .inl ⟨e, mapM_eq_error.mp h, rfl⟩
  | ok bs => exact .inr ⟨bs, mapM_eq_ok.mp h, rfl⟩

end CommandShell
