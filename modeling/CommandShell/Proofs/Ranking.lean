import CommandShell.Proofs.Fault
import CommandShell.Ranking
import Mathlib.Data.Char
import Mathlib.Data.Int.CharZero
import Mathlib.Data.List.Find
import Mathlib.Data.List.Induction
import Mathlib.Data.List.Lex
import Mathlib.Data.Prod.Lex
import Mathlib.Order.Lex

/-!
What ranking makes of a pool. The entries that begin as what is typed are grouped by what they show.
Each group is one candidate, with the text and the tooltip of its first entry, and the candidates
come in the order of the directive. A text that is needed and cannot be made ends the ranking.
-/

set_option autoImplicit false

namespace CommandShell

theorem Text.le_iff {a b : Text} : le a b = true ↔ a ≤ b := by
  rw [← not_lt]
  induction a generalizing b with
  | nil => simp [le]
  | cons c s ih =>
    cases b with
    | nil => simp [le]
    | cons d t =>
      rw [List.cons_lt_cons_iff, le]
      split
      · rename_i hcd
        simp [hcd, ih]
      · rename_i hcd
        simpa [Ne.symm hcd] using ⟨le_of_lt, fun hle => lt_of_le_of_ne hle hcd⟩

namespace Ranking

/-- A word is what is typed of a text, with the sentinel of a directive behind it or without one. -/
inductive Marked : Text → Text → Option SortDirective → Prop where
  | ascending (typed : Text) :
      Marked (typed ++ ['!', '<']) typed (some .ascendingFrequency)
  | descending (typed : Text) :
      Marked (typed ++ ['!', '>']) typed (some .descendingFrequency)
  | plain {word : Text} : ¬ ['!', '<'] <:+ word → ¬ ['!', '>'] <:+ word → Marked word word none

theorem marked_sentinel (word : Text) : Marked word (sentinel word).1 (sentinel word).2 := by
  rw [sentinel]
  split
  · rename_i h
    obtain ⟨typed, rfl⟩ := List.isSuffixOf_iff_suffix.mp h
    simpa using Marked.ascending typed
  · rename_i hascending
    split
    · rename_i h
      obtain ⟨typed, rfl⟩ := List.isSuffixOf_iff_suffix.mp h
      simpa using Marked.descending typed
    · rename_i hdescending
      exact .plain (mt List.isSuffixOf_iff_suffix.mpr hascending)
        (mt List.isSuffixOf_iff_suffix.mpr hdescending)

/-! ## Groups -/

/-- The groups of entries that came one after another: one for each text that is shown, with the
first entry that shows it and how many do. -/
structure Grouped (entries : List Shown) (gs : List Group) : Prop where
  once : (gs.map (·.display)).Nodup
  shown : ∀ text, text ∈ gs.map (·.display) ↔ ∃ entry ∈ entries, entry.1 = text
  first : ∀ g ∈ gs, entries.find? (·.1 = g.display) = some (g.display, g.first)
  count : ∀ g ∈ gs, g.count = entries.countP (·.1 = g.display)

variable {entries : List Shown} {gs : List Group} {g : Group} {entry : Shown}

theorem display_addTo (gs : List Group) (entry : Shown) :
    (addTo gs entry).map (·.display) =
      if entry.1 ∈ gs.map (·.display) then gs.map (·.display)
      else gs.map (·.display) ++ [entry.1] := by
  induction gs with
  | nil => rfl
  | cons g gs ih =>
    by_cases h : g.display = entry.1
    · simp [addTo, h]
    · simp only [addTo, if_neg h, List.map_cons, ih, List.mem_cons, Ne.symm h, false_or]
      split <;> rfl

theorem mem_addTo (hn : (gs.map (·.display)).Nodup) (h : g ∈ addTo gs entry) :
    (g ∈ gs ∧ g.display ≠ entry.1) ∨
      (∃ old ∈ gs, old.display = entry.1 ∧ g = { old with count := old.count + 1 }) ∨
      (entry.1 ∉ gs.map (·.display) ∧ g = ⟨entry.1, entry.2, 1⟩) := by
  induction gs with
  | nil => exact .inr (.inr ⟨List.not_mem_nil, List.mem_singleton.mp h⟩)
  | cons old gs ih =>
    obtain ⟨hapart, hn⟩ := List.nodup_cons.mp hn
    rw [addTo] at h
    split at h
    · rename_i hold
      rcases List.mem_cons.mp h with rfl | h
      · exact .inr (.inl ⟨old, List.mem_cons_self, hold, rfl⟩)
      · refine .inl ⟨List.mem_cons_of_mem old h, fun he => hapart ?_⟩
        exact List.mem_map.mpr ⟨g, h, he.trans hold.symm⟩
    · rename_i hold
      rcases List.mem_cons.mp h with rfl | h
      · exact .inl ⟨List.mem_cons_self, hold⟩
      · rcases ih hn h with ⟨hg, hne⟩ | ⟨g', hg', hsame, rfl⟩ | ⟨hnew, rfl⟩
        · exact .inl ⟨List.mem_cons_of_mem old hg, hne⟩
        · exact .inr (.inl ⟨g', List.mem_cons_of_mem old hg', hsame, rfl⟩)
        · exact .inr (.inr ⟨by simpa [Ne.symm hold] using hnew, rfl⟩)

/-- An entry that comes last is counted in the group of what it shows, and opens one if it is the
first to show that. -/
theorem Grouped.addTo (h : Grouped entries gs) (entry : Shown) :
    Grouped (entries ++ [entry]) (addTo gs entry) where
  once := by
    rw [display_addTo]
    split
    · exact h.once
    · rename_i hnew
      exact List.nodup_append.mpr ⟨h.once, List.pairwise_singleton _ _, by
        rintro text htext _ hlast rfl
        exact hnew (List.mem_singleton.mp hlast ▸ htext)⟩
  shown := by
    intro text
    have hold := h.shown text
    rw [display_addTo]
    split
    · rename_i hin
      simp only [List.mem_append, List.mem_singleton, or_and_right, exists_or, exists_eq_left, hold]
      refine ⟨.inl, fun hor => hor.elim id ?_⟩
      rintro rfl
      exact (h.shown _).mp hin
    · simp only [List.mem_append, List.mem_singleton, or_and_right, exists_or, exists_eq_left, hold,
        eq_comm (a := text)]
  first := by
    intro g hg
    rw [List.find?_append]
    rcases mem_addTo h.once hg with ⟨hg, -⟩ | ⟨old, hold, -, rfl⟩ | ⟨hnew, rfl⟩
    · rw [h.first g hg, Option.some_or]
    · rw [h.first old hold, Option.some_or]
    · have hnone : entries.find? (·.1 = entry.1) = none := by
        rw [List.find?_eq_none]
        intro other hother he
        exact hnew ((h.shown _).mpr ⟨other, hother, by simpa using he⟩)
      simp [hnone]
  count := by
    intro g hg
    rw [List.countP_append]
    rcases mem_addTo h.once hg with ⟨hg, hne⟩ | ⟨old, hold, hsame, rfl⟩ | ⟨hnew, rfl⟩
    · simp [h.count g hg, Ne.symm hne]
    · simp [h.count old hold, hsame]
    · have hnone : entries.countP (·.1 = entry.1) = 0 := by
        rw [List.countP_eq_zero]
        intro other hother he
        exact hnew ((h.shown _).mpr ⟨other, hother, by simpa using he⟩)
      simp [hnone]

theorem grouped_foldl (entries : List Shown) : Grouped entries (entries.foldl addTo []) := by
  induction entries using List.reverseRecOn with
  | nil => exact ⟨List.nodup_nil, by simp, by simp, by simp⟩
  | append_singleton entries entry ih =>
    rw [List.foldl_append]
    exact ih.addTo entry

/-- The groups of the entries that begin as what is typed, seen from the whole pool: what an entry
shows decides whether it is taken. -/
theorem groups_spec (typed : Text) (pool : List Shown) :
    ((groups typed pool).map (·.display)).Nodup ∧
      (∀ text, text ∈ (groups typed pool).map (·.display) ↔
        (∃ entry ∈ pool, entry.1 = text) ∧ Text.caseFold typed <+: Text.caseFold text) ∧
      ∀ g ∈ groups typed pool, pool.find? (·.1 = g.display) = some (g.display, g.first) ∧
        g.count = pool.countP (·.1 = g.display) := by
  let begins (entry : Shown) : Bool :=
    Text.startsWith (Text.caseFold entry.1) (Text.caseFold typed)
  have hbegins {entry : Shown} : begins entry = true ↔
      Text.caseFold typed <+: Text.caseFold entry.1 := List.isPrefixOf_iff_prefix
  have h : Grouped (pool.filter begins) (groups typed pool) := grouped_foldl _
  have hshown : ∀ text, text ∈ (groups typed pool).map (·.display) ↔
      (∃ entry ∈ pool, entry.1 = text) ∧ Text.caseFold typed <+: Text.caseFold text := by
    intro text
    rw [h.shown]
    constructor
    · rintro ⟨entry, hentry, rfl⟩
      obtain ⟨hin, hb⟩ := List.mem_filter.mp hentry
      exact ⟨⟨entry, hin, rfl⟩, hbegins.mp hb⟩
    · rintro ⟨⟨entry, hin, rfl⟩, hb⟩
      exact ⟨entry, List.mem_filter.mpr ⟨hin, hbegins.mpr hb⟩, rfl⟩
  refine ⟨h.once, hshown, fun g hg => ?_⟩
  have htyped := ((hshown _).mp (List.mem_map_of_mem hg)).2
  have hsame (entry : Shown) :
      (begins entry = true ∧ entry.1 = g.display) ↔ entry.1 = g.display :=
    ⟨And.right, fun he => ⟨hbegins.mpr (he ▸ htyped), he⟩⟩
  have hfirst := h.first g hg
  simp only [List.find?_filter, decide_eq_true_iff, hsame] at hfirst
  refine ⟨hfirst, ?_⟩
  rw [h.count g hg, List.countP_filter]
  refine List.countP_congr fun entry _ => ?_
  rw [Bool.and_eq_true, decide_eq_true_iff, and_comm]
  exact hsame entry

/-! ## Order -/

def weight : SortDirective → Nat → ℤ
  | .alphabetical, _ => 0
  | .ascendingFrequency, count => count
  | .descendingFrequency, count => -count

/-- By what texts are ordered: how often they are shown, then without regard to case, then by code
points. -/
def sortKey (directive : SortDirective) (count : Nat) (text : Text) : ℤ ×ₗ Text ×ₗ Text :=
  toLex (weight directive count, toLex (Text.caseFold text, text))

theorem alphabeticalLe_iff {a b : Text} : alphabeticalLe a b = true ↔
    toLex (Text.caseFold a, a) ≤ toLex (Text.caseFold b, b) := by
  rw [Prod.Lex.toLex_le_toLex, alphabeticalLe]
  dsimp only
  split
  · rename_i hfold
    simp [hfold, Text.le_iff]
  · rename_i hfold
    simp [hfold, Text.le_iff, le_iff_lt_or_eq]

theorem groupLe_iff {directive : SortDirective} {a b : Group} : groupLe directive a b = true ↔
    sortKey directive a.count a.display ≤ sortKey directive b.count b.display := by
  rw [sortKey, sortKey, Prod.Lex.toLex_le_toLex]
  cases directive with
  | alphabetical => simp [groupLe, weight, alphabeticalLe_iff]
  | ascendingFrequency =>
    by_cases hcount : a.count = b.count <;>
      simp [groupLe, weight, alphabeticalLe_iff, hcount]
  | descendingFrequency =>
    by_cases hcount : a.count = b.count <;>
      simp [groupLe, weight, alphabeticalLe_iff, hcount]

theorem sortKey_injective {directive : SortDirective} {n m : Nat} {a b : Text}
    (h : sortKey directive n a = sortKey directive m b) : a = b :=
  congrArg (fun key => (ofLex (ofLex key).2).2) h

theorem pairwise_mergeSort_groups (directive : SortDirective) {gs : List Group}
    (hn : (gs.map (·.display)).Nodup) :
    (gs.mergeSort (groupLe directive)).Pairwise fun a b =>
      sortKey directive a.count a.display < sortKey directive b.count b.display := by
  have htrans (a b c : Group) (hab : groupLe directive a b) (hbc : groupLe directive b c) :
      groupLe directive a c :=
    groupLe_iff.mpr (le_trans (groupLe_iff.mp hab) (groupLe_iff.mp hbc))
  have htotal (a b : Group) : groupLe directive a b || groupLe directive b a := by
    rw [Bool.or_eq_true, groupLe_iff, groupLe_iff]
    exact le_total _ _
  have hsorted := List.pairwise_mergeSort htrans htotal gs
  have hapart : ((gs.mergeSort (groupLe directive)).map (·.display)).Nodup :=
    ((List.mergeSort_perm gs _).map _).nodup_iff.mpr hn
  refine (hsorted.and (List.pairwise_map.mp hapart)).imp fun ⟨hle, hne⟩ => ?_
  exact lt_of_le_of_ne (groupLe_iff.mp hle) fun he => hne (sortKey_injective he)

/-! ## Candidates -/

/-- What is taken up to a limit; the limit is looked at after each candidate. -/
def upTo {α : Type} (limit : Option Int) (all : List α) : List α :=
  match limit with
  | some limit => all.take (max limit.toNat 1)
  | none => all

theorem map_upTo {α β : Type} (f : α → β) (limit : Option Int) (all : List α) :
    (upTo limit all).map f = upTo limit (all.map f) := by
  cases limit with
  | none => rfl
  | some limit => exact List.map_take

theorem mem_of_mem_upTo {α : Type} {limit : Option Int} {all : List α} {a : α}
    (h : a ∈ upTo limit all) : a ∈ all := by
  cases limit with
  | none => exact h
  | some limit => exact List.mem_of_mem_take h

theorem ordered_eq (entries : List Shown) (typed : Text) (directive : SortDirective)
    (limit : Option Int) :
    ordered entries typed directive limit =
      upTo limit ((groups typed entries).mergeSort (groupLe directive)) := by
  cases limit <;> rfl

variable {pool : List PoolEntry}

theorem shown_cases (pool : List PoolEntry) :
    (∃ e, FirstFailure PoolEntry.display pool e ∧ shown pool = .error e) ∨
      ∃ entries, shown pool = .ok entries ∧ pool = entries.map (·.2) ∧
        ∀ entry ∈ entries, entry.2.display = .ok entry.1 := by
  have hstep (entry : PoolEntry) (e : Raised) :
      entry.display.map (·, entry) = .error e ↔ entry.display = .error e := by
    cases entry.display <;> simp [Except.map]
  rcases mapM_cases (fun entry : PoolEntry => entry.display.map (·, entry)) pool with
    ⟨e, he, hshown⟩ | ⟨entries, hentries, hshown⟩
  · exact .inl ⟨e, (firstFailure_congr (List.forall₂_same.mpr fun entry _ => hstep entry)).mp he,
      hshown⟩
  · refine .inr ⟨entries, hshown, ?_⟩
    clear hshown
    induction hentries with
    | nil => exact ⟨rfl, by simp⟩
    | @cons entry shown pool entries hentry _ ih =>
      have hdisplay : entry.display = .ok shown.1 ∧ shown.2 = entry := by
        cases hd : entry.display with
        | error e => simp [hd, Except.map] at hentry
        | ok text =>
          obtain rfl : (text, entry) = shown := by simpa [hd, Except.map] using hentry
          exact ⟨rfl, rfl⟩
      exact ⟨by rw [List.map_cons, hdisplay.2, ← ih.1],
        List.forall_mem_cons.mpr ⟨hdisplay.2 ▸ hdisplay.1, ih.2⟩⟩

def described (text : Text) (entry : PoolEntry) : Text :=
  (entry.tooltip.filter (· ≠ [])).getD text

def counted (directive : SortDirective) (count : Nat) : Text :=
  if directive = .alphabetical then [] else " (".toList ++ Text.ofNat count ++ [')']

theorem candidate_cases (directive : SortDirective) (category : Category) (quotes : Bool)
    (g : Group) :
    (∃ e, g.first.insertion = .error e ∧ candidate directive category quotes g = .error e) ∨
      ∃ insertion, g.first.insertion = .ok insertion ∧
        candidate directive category quotes g = .ok {
          insertion := if quotes then Quoting.quoteIfNeeded insertion else insertion
          display := g.display
          category := category
          tooltip := described g.display g.first ++ counted directive g.count } := by
  cases hinsertion : g.first.insertion with
  | error e => exact .inl ⟨e, rfl, by simp [candidate, hinsertion, bind, Except.bind]⟩
  | ok insertion =>
    refine .inr ⟨insertion, rfl, ?_⟩
    simp only [candidate, hinsertion, bind, Except.bind, pure, Except.pure, described, counted]
    rcases g.first.tooltip with _ | _ | _ <;> cases directive <;> simp [Option.filter]

section

variable {entries : List Shown} {word : Text} {explicit : Option SortDirective}
  {category : Category} {quotes : Bool} {limit : Option Int} {x : Candidate}
  {candidates : List Candidate} {raised : Raised}

def chosen (word : Text) (explicit : Option SortDirective) : SortDirective :=
  (explicit.or (sentinel word).2).getD .alphabetical

theorem rank_eq (h : shown pool = .ok entries) :
    rank pool word explicit category quotes limit =
      (upTo limit
        ((groups (sentinel word).1 entries).mergeSort (groupLe (chosen word explicit)))).mapM
        (candidate (chosen word explicit) category quotes) := by
  simp only [rank, h, bind, Except.bind, ordered_eq]
  rfl

theorem first_mem_pool (h : shown pool = .ok entries) {typed : Text} {g : Group}
    (hg : g ∈ groups typed entries) : g.first ∈ pool := by
  obtain ⟨-, -, hgroups⟩ := groups_spec typed entries
  have hfirst := List.mem_of_find?_eq_some (hgroups g hg).1
  rcases shown_cases pool with ⟨e, -, herror⟩ | ⟨entries', hentries, hpool, -⟩
  · cases h.symm.trans herror
  · obtain rfl := Except.ok.inj (h.symm.trans hentries)
    exact hpool ▸ List.mem_map_of_mem hfirst

theorem exists_of_mem_rank (h : rank pool word explicit category quotes limit = .ok candidates)
    (hx : x ∈ candidates) : x.category = category ∧ ∃ entry ∈ pool, ∃ text,
      entry.insertion = .ok text ∧
        x.insertion = if quotes then Quoting.quoteIfNeeded text else text := by
  cases hshown : shown pool with
  | error e =>
    simp only [rank, hshown, bind, Except.bind] at h
    cases h
  | ok entries =>
    rw [rank_eq hshown] at h
    obtain ⟨g, hg, hmade⟩ := exists_of_mem_mapM h hx
    have hfirst := first_mem_pool hshown (List.mem_mergeSort.mp (mem_of_mem_upTo hg))
    rcases candidate_cases (chosen word explicit) category quotes g with
      ⟨_, _, hc⟩ | ⟨text, htext, hc⟩
    · cases hc.symm.trans hmade
    · obtain rfl := Except.ok.inj (hc.symm.trans hmade)
      exact ⟨rfl, g.first, hfirst, text, htext, rfl⟩

theorem exists_of_rank_eq_error
    (h : rank pool word explicit category quotes limit = .error raised) :
    ∃ entry ∈ pool, entry.display = .error raised ∨ entry.insertion = .error raised := by
  rcases shown_cases pool with ⟨e, ⟨before, entry, after, rfl, -, hentry⟩, hshown⟩ |
    ⟨entries, hshown, -, -⟩
  · simp only [rank, hshown, bind, Except.bind] at h
    obtain rfl := Except.error.inj h
    exact ⟨entry, List.mem_append_right _ List.mem_cons_self, .inl hentry⟩
  · rw [rank_eq hshown] at h
    obtain ⟨before, g, after, hall, -, hg⟩ := mapM_eq_error.mp h
    have hmem : g ∈ before ++ g :: after := List.mem_append_right _ List.mem_cons_self
    have hfirst := first_mem_pool hshown
      (List.mem_mergeSort.mp (mem_of_mem_upTo (hall ▸ hmem)))
    rcases candidate_cases (chosen word explicit) category quotes g with
      ⟨e, he, hc⟩ | ⟨_, _, hc⟩
    · exact ⟨g.first, hfirst, .inr (Except.error.inj (hc.symm.trans hg) ▸ he)⟩
    · cases hc.symm.trans hg

theorem rank_texts (h : ∀ entry ∈ pool, ∃ s, entry.value = .text s) :
    ∃ candidates, rank pool word explicit category quotes limit = .ok candidates := by
  cases hrank : rank pool word explicit category quotes limit with
  | ok candidates => exact ⟨candidates, rfl⟩
  | error raised =>
    obtain ⟨entry, hentry, hfails⟩ := exists_of_rank_eq_error hrank
    obtain ⟨s, hs⟩ := h entry hentry
    match entry, hs with
    | .plain _, rfl => exact hfails.elim nofun nofun
    | .item _ none _, rfl => exact hfails.elim nofun nofun
    | .item _ (some _) _, rfl => exact hfails.elim nofun nofun

theorem mem_rank (hshown : shown pool = .ok entries) {g : Group}
    (hg : g ∈ groups (sentinel word).1 entries)
    (hlimit : ∀ l ∈ limit, (groups (sentinel word).1 entries).length ≤ Pool.atMost l)
    (hrank : rank pool word explicit category quotes limit = .ok candidates) :
    ∃ x ∈ candidates, candidate (chosen word explicit) category quotes g = .ok x := by
  rw [rank_eq hshown] at hrank
  have hin : g ∈ upTo limit ((groups (sentinel word).1 entries).mergeSort
      (groupLe (chosen word explicit))) := by
    cases limit with
    | none => exact List.mem_mergeSort.mpr hg
    | some l =>
      have hall : ((groups (sentinel word).1 entries).mergeSort
          (groupLe (chosen word explicit))).length ≤ Pool.atMost l := by
        rw [List.length_mergeSort]
        exact hlimit l rfl
      rw [upTo, ← Pool.atMost, List.take_of_length_le hall]
      exact List.mem_mergeSort.mpr hg
  exact exists_result_of_mem hrank hin

end

/-- The text that is inserted for what is shown: that of the first entry that shows it. -/
def insertionFor (pool : List PoolEntry) (text : Text) : Except Raised Text :=
  match pool.find? (·.display = .ok text) with
  | some entry => entry.insertion
  | none => .ok text

/-- Ranking a pool gives one candidate for each text that is shown and begins as what is typed,
strictly in the order of the directive and cut to the limit. A candidate has the text and the
tooltip of the first entry that shows it, and under an order by frequency it says how many do. The
ranking fails just when an entry cannot be printed, or a candidate has no text to insert, and then
as the first of these does. -/
theorem rank_ordered (pool : List PoolEntry) (word : Text) (explicit : Option SortDirective)
    (category : Category) (quotes : Bool) (limit : Option Int) :
    ∃ typed marked, Marked word typed marked ∧
      let directive := (explicit.or marked).getD .alphabetical
      let count (text : Text) := pool.countP (·.display = .ok text)
      let ranked := rank pool word explicit category quotes limit
      (∃ e, FirstFailure PoolEntry.display pool e ∧ ranked = .error e) ∨
      (∀ entry ∈ pool, ∃ text, entry.display = .ok text) ∧
      ∃ shown : List Text,
        (∀ text, text ∈ shown ↔ (∃ entry ∈ pool, entry.display = .ok text) ∧
          Text.caseFold typed <+: Text.caseFold text) ∧
        shown.Pairwise (fun a b => sortKey directive (count a) a < sortKey directive (count b) b) ∧
        ((∃ e, FirstFailure (insertionFor pool) (upTo limit shown) e ∧ ranked = .error e) ∨
          ∃ candidates, ranked = .ok candidates ∧
            candidates.map (·.display) = upTo limit shown ∧
            ∀ c ∈ candidates, c.category = category ∧
              ∃ entry insertion, pool.find? (·.display = .ok c.display) = some entry ∧
                entry.insertion = .ok insertion ∧
                c.insertion = (if quotes then Quoting.quoteIfNeeded insertion else insertion) ∧
                c.tooltip = described c.display entry ++ counted directive (count c.display)) := by
  refine ⟨_, _, marked_sentinel word, ?_⟩
  intro directive count ranked
  rcases shown_cases pool with ⟨e, he, hshown⟩ | ⟨entries, hentries, hpool, hdisplay⟩
  · exact .inl ⟨e, he, by simp only [ranked, rank, hshown, bind, Except.bind]⟩
  refine .inr ⟨?_, ?_⟩
  · rw [hpool]
    intro entry hentry
    obtain ⟨s, hs, rfl⟩ := List.mem_map.mp hentry
    exact ⟨s.1, hdisplay s hs⟩
  obtain ⟨hn, hmem, hgroups⟩ := groups_spec (sentinel word).1 entries
  let sorted := (groups (sentinel word).1 entries).mergeSort (groupLe directive)
  have hperm : sorted.Perm (groups (sentinel word).1 entries) := List.mergeSort_perm ..
  have hranked : ranked = (upTo limit sorted).mapM (candidate directive category quotes) :=
    rank_eq hentries
  -- what an entry shows is what its printed text says
  have hsame (text : Text) : ∀ s ∈ entries, (s.2.display = .ok text ↔ s.1 = text) := by
    intro s hs
    rw [hdisplay s hs, Except.ok.injEq]
  have hfind (text : Text) : pool.find? (·.display = .ok text) =
      (entries.find? (·.1 = text)).map (·.2) := by
    rw [hpool, List.find?_map]
    exact congrArg _ (List.find?_congr fun s hs => by simp [hsame text s hs])
  have hcount (text : Text) : count text = entries.countP (·.1 = text) := by
    simp only [count]
    rw [hpool, List.countP_map]
    exact List.countP_congr fun s hs => by simp [hsame text s hs]
  have hfirst {g : Group} (hg : g ∈ sorted) :
      pool.find? (·.display = .ok g.display) = some g.first ∧ g.count = count g.display := by
    obtain ⟨hfirst, hnumber⟩ := hgroups g (hperm.mem_iff.mp hg)
    exact ⟨by rw [hfind, hfirst]; rfl, by rw [hcount, hnumber]⟩
  refine ⟨sorted.map (·.display), fun text => ?_, ?_, ?_⟩
  · rw [(hperm.map _).mem_iff, hmem]
    refine and_congr_left fun _ => ?_
    rw [hpool]
    simp only [List.mem_map, exists_exists_and_eq_and]
    exact exists_congr fun s => and_congr_right fun hs => (hsame text s hs).symm
  · refine List.pairwise_map.mpr ((pairwise_mergeSort_groups directive hn).imp_of_mem ?_)
    intro a b ha hb hlt
    rwa [(hfirst ha).2, (hfirst hb).2] at hlt
  rcases mapM_cases (candidate directive category quotes) (upTo limit sorted) with
    ⟨e, he, herror⟩ | ⟨candidates, hcandidates, hok⟩
  · refine .inl ⟨e, ?_, hranked.trans herror⟩
    rw [← map_upTo]
    refine (firstFailure_congr (List.forall₂_map_right_iff.mpr (List.forall₂_same.mpr ?_))).mp he
    intro g hg e
    rw [insertionFor, (hfirst (mem_of_mem_upTo hg)).1]
    rcases candidate_cases directive category quotes g with ⟨_, h, h'⟩ | ⟨_, h, h'⟩ <;> simp [h, h']
  · refine .inr ⟨candidates, hranked.trans hok, ?_, fun c hc => ?_⟩
    · rw [← map_upTo]
      refine (List.forall₂_eq_eq_eq ▸ List.forall₂_map_left_iff.mpr
        (List.forall₂_map_right_iff.mpr (hcandidates.imp fun g c hc => ?_)) : _ = _).symm
      rcases candidate_cases directive category quotes g with ⟨_, _, h⟩ | ⟨_, _, h⟩
      · simp [h] at hc
      · exact Except.ok.inj (h.symm.trans hc) ▸ rfl
    · obtain ⟨g, hg, hmade⟩ := exists_of_mem_mapM hok hc
      obtain ⟨hentry, hnumber⟩ := hfirst (mem_of_mem_upTo hg)
      rcases candidate_cases directive category quotes g with ⟨_, _, h⟩ | ⟨text, htext, h⟩
      · simp [h] at hmade
      · obtain rfl := Except.ok.inj (h.symm.trans hmade)
        exact ⟨rfl, g.first, text, hentry, htext, rfl, by rw [hnumber]⟩

def uncallable : Raised := .fault ⟨.type, "'str' object is not callable".toList⟩

def unprintable : PoolEntry :=
  .item (.object ⟨['E'], 0, true, .error uncallable, .error uncallable⟩) none none

/-- An entry that cannot be printed leaves no candidate for one that can. -/
theorem rank_unprintable :
    PoolEntry.display (.plain (.text "apple".toList)) = .ok "apple".toList ∧
      Text.startsWith (Text.caseFold "apple".toList) (Text.caseFold "ap".toList) = true ∧
      rank [.plain (.text "apple".toList), unprintable] "ap".toList none .parameterValue true none =
        .error uncallable :=
  ⟨rfl, by decide, rfl⟩

end Ranking

end CommandShell
