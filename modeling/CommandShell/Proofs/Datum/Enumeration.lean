import CommandShell.Datum.ValueType
import CommandShell.Pool.Basic
import Mathlib.Data.List.Nodup

/-!
What completion inserts for a member of an enumeration, converted back. Names come before values and
case does not matter, so that the value of one member may be read as another member.
-/

set_option autoImplicit false

namespace CommandShell.Enumeration

variable {e : Enumeration} {m n : Member} {raw : Text} {before after : List Member}

/-- No two members have one name, in any case. -/
def Apart (e : Enumeration) : Prop := (e.all.map fun m => Text.lower m.name).Nodup

theorem Apart.eq_of_name (h : e.Apart) (hm : m ∈ e.all) (hn : n ∈ e.all)
    (hname : Text.lower m.name = Text.lower n.name) : m = n :=
  List.inj_on_of_nodup_map h hm hn hname

theorem Apart.notMem_before (h : e.Apart) (hall : e.all = before ++ m :: after) : m ∉ before := by
  intro hm
  have hnodup : (before ++ m :: after).Nodup := hall ▸ List.Nodup.of_map _ h
  exact (List.nodup_append.mp hnodup).2.2 m hm m (List.mem_cons_self ..) rfl

theorem coerce_of_name (h : e.Apart) (hm : m ∈ e.all)
    (hname : Text.lower m.name = Text.lower raw) : e.coerce raw = .ok m := by
  have hfound : (e.all.find? (Text.lower ·.name = Text.lower raw)).isSome = true :=
    List.find?_isSome.mpr ⟨m, hm, by simpa using hname⟩
  obtain ⟨n, hn⟩ := Option.isSome_iff_exists.mp hfound
  have hother : Text.lower n.name = Text.lower raw := by simpa using List.find?_some hn
  rw [coerce, hn, h.eq_of_name hm (List.mem_of_find?_eq_some hn) (hname.trans hother.symm)]

/-- The value of the member is in any case `raw`, or it is a number that cannot be written. -/
def Stops (raw : Text) (m : Member) : Prop :=
  ∀ value, m.value.print = .ok value → Text.lower value = Text.lower raw

theorem ofValue?_append (hpass : ∀ n ∈ before, ¬ Stops raw n) :
    ofValue? (Text.lower raw) (before ++ after) = ofValue? (Text.lower raw) after := by
  induction before with
  | nil => rfl
  | cons first before ih =>
    obtain ⟨hfirst, hpass⟩ := List.forall_mem_cons.mp hpass
    obtain ⟨value, hvalue, hdiffers⟩ : ∃ value, first.value.print = .ok value ∧
        Text.lower value ≠ Text.lower raw := by simpa [Stops] using hfirst
    rw [List.cons_append, ofValue?, hvalue]
    simpa only [bind, Except.bind, if_neg hdiffers] using ih hpass

theorem ofValue?_cons (hstops : Stops raw m) :
    ofValue? (Text.lower raw) (m :: after) = m.value.print.map fun _ => some m := by
  rw [ofValue?]
  cases hvalue : m.value.print with
  | error raised => rfl
  | ok value => simp [bind, Except.bind, Except.map, pure, Except.pure, hstops value hvalue]

theorem exists_first_stop (h : ∃ n ∈ before, Stops raw n) :
    ∃ front n rest, before = front ++ n :: rest ∧ Stops raw n ∧ ∀ k ∈ front, ¬ Stops raw k := by
  classical
  obtain ⟨n, hn, hstops⟩ := h
  have hsome : (before.find? fun k => decide (Stops raw k)).isSome = true :=
    List.find?_isSome.mpr ⟨n, hn, decide_eq_true hstops⟩
  obtain ⟨n, hfound⟩ := Option.isSome_iff_exists.mp hsome
  obtain ⟨hn, front, rest, hall, hpass⟩ := List.find?_eq_some_iff_append.mp hfound
  exact ⟨front, n, rest, hall, of_decide_eq_true hn, fun k hk => by simpa using hpass k hk⟩

/-- A text that is no name is read as the first member of that value, if the numbers before it can
be written. -/
theorem coerce_of_value (hnames : ∀ n ∈ e.all, Text.lower n.name ≠ Text.lower raw)
    (hall : e.all = before ++ m :: after) (hstops : Stops raw m)
    (hpass : ∀ n ∈ before, ¬ Stops raw n) : e.coerce raw = m.value.print.map fun _ => m := by
  have hnone : e.all.find? (Text.lower ·.name = Text.lower raw) = none :=
    List.find?_eq_none.mpr fun n hn => by simpa using hnames n hn
  rw [coerce, hnone, hall]
  dsimp only
  rw [ofValue?_append hpass, ofValue?_cons hstops]
  cases m.value.print <;> rfl

/-- The value of a member is in any case the name of another member, or the value of one of the
members before it, or there is a number before it that cannot be written. -/
def Hidden (e : Enumeration) (before : List Member) (m : Member) : Prop :=
  ∃ s, m.value = .text s ∧ Text.lower m.name ≠ Text.lower s ∧
    ((∃ n ∈ e.all, Text.lower n.name = Text.lower s) ∨ ∃ n ∈ before, Stops s n)

theorem hidden_iff {s : Text} (hvalue : m.value = .text s) :
    e.Hidden before m ↔ Text.lower m.name ≠ Text.lower s ∧
      ((∃ n ∈ e.all, Text.lower n.name = Text.lower s) ∨ ∃ n ∈ before, Stops s n) := by
  simp [Hidden, hvalue]

/-- What reading a text gives when it is not `m`: another member, or the failure to write the
number of a member before `m`. -/
def Misread (e : Enumeration) (before : List Member) (m : Member) (result : Except Raised Member) :
    Prop :=
  (∃ n ∈ e.all, n ≠ m ∧ result = .ok n) ∨
    ∃ n ∈ before, ∃ raised, n.value.print = .error raised ∧ result = .error raised

theorem coerce_text {s : Text} (h : e.Apart) (hall : e.all = before ++ m :: after)
    (hvalue : m.value = .text s) :
    (e.Hidden before m → e.Misread before m (e.coerce s)) ∧
      (¬ e.Hidden before m → e.coerce s = .ok m) := by
  rw [hidden_iff hvalue]
  have hm : m ∈ e.all := hall ▸ List.mem_append_right _ List.mem_cons_self
  constructor
  · rintro ⟨hown, hother⟩
    by_cases hnames : ∃ n ∈ e.all, Text.lower n.name = Text.lower s
    · obtain ⟨n, hn, hname⟩ := hnames
      exact .inl ⟨n, hn, fun heq => hown (heq ▸ hname), coerce_of_name h hn hname⟩
    · obtain ⟨front, n, rest, rfl, hstops, hpass⟩ :=
        exists_first_stop (hother.resolve_left hnames)
      have hn : n ∈ front ++ n :: rest := List.mem_append_right _ List.mem_cons_self
      have hcoerce : e.coerce s = n.value.print.map fun _ => n := by
        have hsplit : e.all = front ++ n :: (rest ++ m :: after) := by
          rw [hall, List.append_assoc, List.cons_append]
        exact coerce_of_value (fun k hk hname => hnames ⟨k, hk, hname⟩) hsplit hstops hpass
      cases hprint : n.value.print with
      | ok value =>
        refine .inl ⟨n, hall ▸ List.mem_append_left _ hn, ?_, by rw [hcoerce, hprint]; rfl⟩
        rintro rfl
        exact h.notMem_before hall hn
      | error raised => exact .inr ⟨n, hn, raised, hprint, by rw [hcoerce, hprint]; rfl⟩
  · intro hfree
    by_cases hown : Text.lower m.name = Text.lower s
    · exact coerce_of_name h hm hown
    · have hstops : Stops s m := by simp [Stops, hvalue, MemberValue.print]
      rw [coerce_of_value (fun n hn hname => hfree ⟨hown, .inl ⟨n, hn, hname⟩⟩) hall hstops
        fun n hn hstop => hfree ⟨hown, .inr ⟨n, hn, hstop⟩⟩, hvalue]
      rfl

theorem coerce_typed (h : e.Apart) (hall : e.all = before ++ m :: after) :
    (e.Hidden before m → e.Misread before m (e.coerce m.typed)) ∧
      (¬ e.Hidden before m → e.coerce m.typed = .ok m) := by
  unfold Member.typed
  split
  · rename_i s hvalue
    exact coerce_text h hall hvalue
  · rename_i i hvalue
    have hm : m ∈ e.all := hall ▸ List.mem_append_right _ List.mem_cons_self
    exact ⟨fun hhidden => by simp [Hidden, hvalue] at hhidden, fun _ => coerce_of_name h hm rfl⟩

/-- The text that is inserted for a member is read as that member unless its value hides it; then
it is read as another, or a number before it cannot be written. -/
theorem coerceText_insertion (h : e.Apart) (hall : e.all = before ++ m :: after) :
    ∃ inserted, (PoolEntry.plain (.member m)).insertion = .ok inserted ∧
      (¬ e.Hidden before m →
        (ValueType.enumeration e).coerceText inserted = .ok (.member m)) ∧
      (e.Hidden before m → ∃ result, e.Misread before m result ∧
        (ValueType.enumeration e).coerceText inserted = result.map .member) := by
  obtain ⟨hhidden, hfree⟩ := coerce_typed h hall
  refine ⟨m.typed, rfl, fun hnot => ?_, fun hhid => ⟨_, hhidden hhid, rfl⟩⟩
  rw [ValueType.coerceText, hfree hnot]
  rfl

def side : Enumeration :=
  ⟨"Side".toList, [("Left".toList, .text "a".toList), ("Right".toList, .text "A".toList)]⟩

def left : Member := ⟨side, "Left".toList, .text "a".toList⟩

def right : Member := ⟨side, "Right".toList, .text "A".toList⟩

theorem side_apart : side.Apart := by
  unfold Apart
  decide +kernel

theorem coerceText_insertion_left :
    side.Apart ∧ side.all = [] ++ left :: [right] ∧ ¬ side.Hidden [] left ∧
      ∃ inserted, (PoolEntry.plain (.member left)).insertion = .ok inserted ∧
        (ValueType.enumeration side).coerceText inserted = .ok (.member left) := by
  have hall : side.all = [] ++ left :: [right] := rfl
  have hnames : ∀ n ∈ side.all, Text.lower n.name ≠ Text.lower "a".toList := by decide +kernel
  have hfree : ¬ side.Hidden [] left := by
    rw [hidden_iff rfl]
    rintro ⟨-, ⟨n, hn, hname⟩ | ⟨n, hn, -⟩⟩
    · exact hnames n hn hname
    · cases hn
  obtain ⟨inserted, hinserted, hread, -⟩ := coerceText_insertion side_apart hall
  exact ⟨side_apart, hall, hfree, inserted, hinserted, hread hfree⟩

/-- The text that is inserted for the second member is read as the first. -/
theorem right_read_as_left :
    side.Apart ∧ right ∈ side.all ∧
      (PoolEntry.plain (.member right)).insertion = .ok "A".toList ∧
      (ValueType.enumeration side).coerceText "A".toList = .ok (.member left) ∧ left ≠ right :=
  ⟨side_apart, List.mem_cons_of_mem _ (List.mem_singleton_self _), rfl, rfl, by decide +kernel⟩

end CommandShell.Enumeration
