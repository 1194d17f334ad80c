import CommandShell.Pool.Basic
import Mathlib.Data.List.Induction

/-!
How a pool is collected, entry by entry. After each entry the request may turn out to be given up,
and the limit is looked at once the entry is taken; so what is seen first decides what is left.
-/

set_option autoImplicit false

namespace CommandShell

/-- What a provider answers when it is asked for one entry more. -/
inductive Answer where
  | entry (entry : PoolEntry)
  | ending (ending : Ending)

namespace Supply

variable {entries taken : List PoolEntry} {ending : Ending} {supply : Supply}

def answer : Supply → Nat → Answer
  | .finite entries ending, i =>
    match entries[i]? with
    | some entry => .entry entry
    | none => .ending ending
  | .endless entry, i => .entry (entry i)

def Begins (supply : Supply) (entries : List PoolEntry) : Prop :=
  ∀ i entry, entries[i]? = some entry → supply.answer i = .entry entry

def Ends (supply : Supply) (entries : List PoolEntry) (ending : Ending) : Prop :=
  supply.Begins entries ∧ supply.answer entries.length = .ending ending

theorem answer_finite_eq_entry {i : Nat} {entry : PoolEntry} :
    (finite entries ending).answer i = .entry entry ↔ entries[i]? = some entry := by
  cases hother : entries[i]? <;> simp [answer, hother]

theorem Begins.prefix_of_finite (h : (finite entries ending).Begins taken) : taken <+: entries := by
  rw [List.prefix_iff_getElem?]
  exact fun i hi => answer_finite_eq_entry.mp (h i _ (List.getElem?_eq_getElem hi))

theorem Begins.of_endless {entry : Nat → PoolEntry} (h : (endless entry).Begins taken) :
    taken = (List.range taken.length).map entry := by
  refine List.ext_getElem (by simp) fun i hi _ => ?_
  have hanswer : Answer.entry (entry i) = .entry taken[i] := h i _ (List.getElem?_eq_getElem hi)
  simpa using (Answer.entry.inj hanswer).symm

theorem Ends.eq_finite (h : supply.Ends entries ending) : supply = .finite entries ending := by
  obtain ⟨hbegins, hend⟩ := h
  cases supply with
  | endless entry => cases hend
  | finite all last =>
    obtain ⟨rest, rfl⟩ := hbegins.prefix_of_finite
    cases rest with
    | nil =>
      rw [List.append_nil, answer, List.getElem?_eq_none (Nat.le_refl _)] at hend
      rw [List.append_nil, Answer.ending.inj hend]
    | cons entry rest => simp [answer] at hend

end Supply

namespace Pool

variable {supply : Supply} {limit : Option Int} {cancelled : Bool} {parameter : Text}
  {entries taken : List PoolEntry}

def Full (limit : Option Int) (taken : List PoolEntry) : Prop :=
  taken ≠ [] ∧ ∃ l ∈ limit, l ≤ taken.length

/-- The entries that are taken when the loop comes round. -/
inductive Takes (supply : Supply) (limit : Option Int) (cancelled : Bool) :
    List PoolEntry → Prop where
  | nothing : Takes supply limit cancelled []
  | next {taken : List PoolEntry} {entry : PoolEntry} (h : Takes supply limit cancelled taken)
      (hopen : ¬ Full limit taken) (hentry : supply.answer taken.length = .entry entry)
      (hgoes : cancelled = false) : Takes supply limit cancelled (taken ++ [entry])

/-- How the loop ends: by its limit, by the end of the supply, by its failure, or before the first
entry of a request that was given up. -/
inductive Returns (supply : Supply) (limit : Option Int) (cancelled : Bool) (parameter : Text) :
    List PoolEntry → List Diagnostic → Prop where
  | full {taken : List PoolEntry} (h : Takes supply limit cancelled taken)
      (hfull : Full limit taken) : Returns supply limit cancelled parameter taken []
  | finished {taken : List PoolEntry} (h : Takes supply limit cancelled taken)
      (hopen : ¬ Full limit taken) (hend : supply.answer taken.length = .ending .finished) :
      Returns supply limit cancelled parameter taken []
  | failed {taken : List PoolEntry} {raised : Raised} (h : Takes supply limit cancelled taken)
      (hopen : ¬ Full limit taken) (hend : supply.answer taken.length = .ending (.failed raised)) :
      Returns supply limit cancelled parameter []
        [⟨.tell (.providerFailure parameter) raised, none⟩]
  | stopped {entry : PoolEntry} (hentry : supply.answer 0 = .entry entry)
      (hstops : cancelled = true) : Returns supply limit cancelled parameter [] []

theorem Takes.begins (h : Takes supply limit cancelled taken) : supply.Begins taken := by
  induction h with
  | nothing => exact fun i entry hi => nomatch hi
  | @next taken last _ _ hentry _ ih =>
    intro i entry hi
    rcases Nat.lt_or_ge i taken.length with hlt | hge
    · exact ih i entry (List.getElem?_append_left hlt ▸ hi)
    · rw [List.getElem?_append_right hge] at hi
      obtain rfl : i = taken.length := by
        have := (List.getElem?_eq_some_iff.mp hi).1
        simp only [List.length_singleton] at this
        omega
      rw [Nat.sub_self] at hi
      rwa [← Option.some.inj hi]

theorem Takes.goes (h : Takes supply limit cancelled taken) (hne : taken ≠ []) :
    cancelled = false := by
  cases h with
  | nothing => exact absurd rfl hne
  | next _ _ _ hgoes => exact hgoes

theorem Takes.length_le (h : Takes supply limit cancelled taken) {l : Int} (hl : l ∈ limit) :
    taken.length ≤ atMost l := by
  cases h with
  | nothing => exact Nat.zero_le _
  | @next taken entry _ hopen _ _ =>
    rw [List.length_append, List.length_singleton, atMost]
    cases taken with
    | nil => exact Nat.le_max_right _ _
    | cons first rest =>
      have hless : ¬ l ≤ (first :: rest).length :=
        fun hle => hopen ⟨List.cons_ne_nil _ _, l, hl, hle⟩
      omega

theorem Takes.collect_full (h : Takes supply limit false taken) (hfull : Full limit taken)
    (parameter : Text) (timeout : Timeout) :
    collect parameter timeout limit false supply = (taken, []) := by
  obtain ⟨hne, l, rfl, hl⟩ := hfull
  have hsize : taken.length = atMost l := by
    have hle := h.length_le rfl
    have hpos := List.length_pos_iff.mpr hne
    simp only [atMost] at hle ⊢
    omega
  cases supply with
  | endless entry =>
    rw [collect, ← hsize, ← h.begins.of_endless]
    rfl
  | finite entries ending =>
    obtain ⟨rest, rfl⟩ := h.begins.prefix_of_finite
    obtain ⟨first, others, rfl⟩ := List.exists_cons_of_ne_nil hne
    have hreached : atMost l ≤ (first :: (others ++ rest)).length := by simp [← hsize]
    simp only [List.cons_append, collect, Bool.false_eq_true, if_false, if_pos hreached]
    rw [← hsize, ← List.cons_append, List.take_left]

theorem collect_ended (ending : Ending) (hgoes : taken ≠ [] → cancelled = false)
    (hopen : ¬ Full limit taken) (hending : ending ≠ .never) (parameter : Text)
    (timeout : Timeout) :
    collect parameter timeout limit cancelled (.finite taken ending) =
      ended taken parameter timeout false ending := by
  cases taken with
  | nil =>
    rw [collect]
    cases ending with
    | never => exact absurd rfl hending
    | finished | failed raised => rfl
  | cons first rest =>
    obtain rfl := hgoes (List.cons_ne_nil _ _)
    cases limit with
    | none => rfl
    | some l =>
      have hless : ¬ atMost l ≤ (first :: rest).length := by
        intro hle
        refine hopen ⟨List.cons_ne_nil _ _, l, rfl, ?_⟩
        simp only [atMost] at hle
        omega
      simp only [collect, Bool.false_eq_true, if_false, if_neg hless]

theorem collect_of_returns {pool : List PoolEntry} {noted : List Diagnostic}
    (h : Returns supply limit cancelled parameter pool noted) (timeout : Timeout) :
    collect parameter timeout limit cancelled supply = (pool, noted) := by
  cases h with
  | full h hfull =>
    obtain rfl := h.goes hfull.1
    exact h.collect_full hfull parameter timeout
  | finished h hopen hend =>
    obtain rfl := Supply.Ends.eq_finite ⟨h.begins, hend⟩
    rw [collect_ended _ h.goes hopen Ending.noConfusion, ended]
  | failed h hopen hend =>
    obtain rfl := Supply.Ends.eq_finite ⟨h.begins, hend⟩
    rw [collect_ended _ h.goes hopen Ending.noConfusion, ended]
  | stopped hentry hstops =>
    obtain rfl := hstops
    match supply with
    | .endless _ => rfl
    | .finite (_ :: _) _ => rfl

/-- Entries are taken one by one as long as none but the last reaches the limit. -/
theorem takes_of_begins (h : supply.Begins entries) (hlimit : ∀ l ∈ limit, entries.length ≤ l) :
    Takes supply limit false entries := by
  induction entries using List.reverseRecOn with
  | nil => exact .nothing
  | append_singleton entries last ih =>
    have hless : ∀ l ∈ limit, (entries.length : Int) < l := by
      intro l hl
      have := hlimit l hl
      rw [List.length_append, List.length_singleton] at this
      omega
    refine .next (ih (fun i entry hi => h i entry ?_) fun l hl => Int.le_of_lt (hless l hl)) ?_
      (h _ _ List.getElem?_concat_length) rfl
    · rw [List.getElem?_append_left (List.getElem?_eq_some_iff.mp hi).1, hi]
    · rintro ⟨-, l, hl, hfull⟩
      exact absurd (hless l hl) (Int.not_lt.mpr hfull)

theorem not_full_of_lt (h : ∀ l ∈ limit, (taken.length : Int) < l) : ¬ Full limit taken :=
  fun ⟨_, l, hl, hfull⟩ => absurd (h l hl) (Int.not_lt.mpr hfull)

def letters : List PoolEntry := ["a", "b", "c"].map fun name => .plain (.text name.toList)

def failing : Provider Unit := fun _ _ => .finite letters (.failed (Fault.ofKey "d".toList))

def asking : PoolRequest := ⟨"Cmd".toList, "P".toList, [], [], [], false⟩

end Pool

end CommandShell
