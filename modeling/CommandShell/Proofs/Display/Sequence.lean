import CommandShell.Display.Log
import CommandShell.Proofs.Display.Ansi

/-!
Escape sequences in a text, and those that are still there when the text has been stripped. One
pass takes out the sequences that the text spells; an escape that begins none of them stays, and may
begin one together with what comes to stand behind it. Styles are whole sequences, so that they are
taken out again wherever the styled text is cut.
-/

set_option autoImplicit false

namespace CommandShell

namespace Ansi

variable {s t q y : Text}

/-! ## Sequences -/

def IsSequence (q : Text) : Prop :=
  ∃ arguments letter, (∀ c ∈ arguments, isArgument c = true) ∧ letter.isAlpha = true ∧
    q = escape :: '[' :: (arguments ++ [letter])

def Begins (s : Text) : Prop := ∃ q, IsSequence q ∧ q <+: s

/-- A sequence stands somewhere in the text. -/
def Spells (s : Text) : Prop := ∃ q, IsSequence q ∧ q <:+: s

def IsBeginning (s : Text) : Prop := s ≠ [] ∧ ∃ q, IsSequence q ∧ s <+: q ∧ s ≠ q

theorem isArgument_of_isAlpha {c : Char} (h : c.isAlpha = true) : isArgument c = false := by
  have hcase : (c.isUpper || c.isLower) = true := h
  have hle : 'A'.val ≤ c.val ∨ 'a'.val ≤ c.val := by
    rcases (Bool.or_eq_true ..).mp hcase with hupper | hlower
    · exact .inl (of_decide_eq_true hupper).1
    · exact .inr (of_decide_eq_true ((Bool.and_eq_true ..).mp hlower).1)
  rw [← Bool.not_eq_true]
  intro hargument
  rcases (Bool.or_eq_true ..).mp hargument with hdigit | hsemicolon
  · have hnine : c.val ≤ '9'.val := of_decide_eq_true ((Bool.and_eq_true ..).mp hdigit).2
    rcases hle with hle | hle <;> exact absurd (UInt32.le_trans hle hnine) (by decide)
  · obtain rfl := beq_iff_eq.mp hsemicolon
    exact absurd h (by decide)

theorem afterSequence?_eq_some {rest : Text} :
    afterSequence? s = some rest ↔ ∃ q, IsSequence q ∧ escape :: s = q ++ rest := by
  constructor
  · intro h
    unfold afterSequence? at h
    split at h
    · rename_i s
      split at h
      · rename_i letter rest' hdrop
        split at h
        · rename_i hletter
          obtain rfl := Option.some.inj h
          refine ⟨_, ⟨s.takeWhile isArgument, letter, fun c hc => ?_, hletter, rfl⟩, ?_⟩
          · exact List.all_eq_true.mp List.all_takeWhile c hc
          · have hsplit := List.takeWhile_append_dropWhile (p := isArgument) (l := s)
            rw [hdrop] at hsplit
            simp [hsplit]
        · cases h
      · cases h
    · cases h
  · rintro ⟨_, ⟨arguments, letter, harguments, hletter, rfl⟩, hs⟩
    obtain rfl : s = '[' :: (arguments ++ letter :: rest) := by simpa using hs
    rw [afterSequence?, List.dropWhile_append_of_pos harguments,
      List.dropWhile_cons_of_neg (by simp [isArgument_of_isAlpha hletter])]
    exact if_pos hletter

theorem begins_escape_cons : Begins (escape :: s) ↔ (afterSequence? s).isSome = true := by
  rw [Option.isSome_iff_exists]
  constructor
  · rintro ⟨q, hq, rest, hrest⟩
    exact ⟨rest, afterSequence?_eq_some.mpr ⟨q, hq, hrest.symm⟩⟩
  · rintro ⟨rest, h⟩
    obtain ⟨q, hq, hrest⟩ := afterSequence?_eq_some.mp h
    exact ⟨q, hq, rest, hrest.symm⟩

theorem not_begins_escape_cons : ¬ Begins (escape :: s) ↔ afterSequence? s = none := by
  rw [begins_escape_cons, Bool.not_eq_true, Option.isSome_eq_false_iff, Option.isNone_iff_eq_none]

theorem Begins.exists_cons (h : Begins s) : ∃ y, s = escape :: y := by
  obtain ⟨_, ⟨arguments, letter, -, -, rfl⟩, rest, rfl⟩ := h
  exact ⟨_, rfl⟩

theorem spells_iff : Spells s ↔ ∃ y, escape :: y <:+ s ∧ Begins (escape :: y) := by
  constructor
  · rintro ⟨q, hq, hin⟩
    obtain ⟨t, hfront, hback⟩ := List.infix_iff_prefix_suffix.mp hin
    obtain ⟨y, rfl⟩ := Begins.exists_cons ⟨q, hq, hfront⟩
    exact ⟨y, hback, q, hq, hfront⟩
  · rintro ⟨y, hback, q, hq, hfront⟩
    exact ⟨q, hq, List.infix_iff_prefix_suffix.mpr ⟨_, hfront, hback⟩⟩

theorem Spells.of_suffix (h : Spells t) (hback : t <:+ s) : Spells s := by
  obtain ⟨q, hq, hin⟩ := h
  exact ⟨q, hq, hin.trans hback.isInfix⟩

/-! ## What is left -/

theorem apart_escape_cons (s : Text) : Apart (escape :: s) := by
  intro c hc
  obtain rfl := Option.some.inj hc
  decide

theorem strip_sequence_append (hq : IsSequence q) (t : Text) : strip (q ++ t) = strip t := by
  obtain ⟨arguments, letter, -, -, rfl⟩ := id hq
  exact strip_sequence (afterSequence?_eq_some.mpr ⟨_, hq, rfl⟩)

theorem strip_cut (hq : IsSequence q) (before behind : Text) :
    strip (before ++ (q ++ behind)) = strip before ++ strip behind := by
  have hapart : Apart (q ++ behind) := by
    obtain ⟨arguments, letter, -, -, rfl⟩ := hq
    exact apart_escape_cons _
  rw [strip_append hapart, strip_sequence_append hq]

theorem strip_sublist (s : Text) : (strip s).Sublist s := by
  fun_induction strip s with
  | case1 => exact List.Sublist.refl _
  | case2 c s hc rest hrest ih =>
    obtain ⟨q, -, hsplit⟩ := afterSequence?_eq_some.mp hrest
    obtain rfl := beq_iff_eq.mp hc
    rw [hsplit]
    exact ih.trans (List.sublist_append_right q rest)
  | case3 c s hc hnone ih => exact ih.cons_cons c
  | case4 c s hc ih => exact ih.cons_cons c

/-- The escapes that are left are those that begin no sequence in the text, each with what is left
of the text behind it. -/
theorem escape_cons_suffix_strip :
    escape :: y <:+ strip s ↔
      ∃ behind, escape :: behind <:+ s ∧ ¬ Begins (escape :: behind) ∧ strip behind = y := by
  constructor
  · intro h
    fun_induction strip s with
    | case1 => cases List.suffix_nil.mp h
    | case2 c s hc rest hrest ih =>
      obtain ⟨q, -, hsplit⟩ := afterSequence?_eq_some.mp hrest
      obtain rfl := beq_iff_eq.mp hc
      obtain ⟨behind, hback, hleft⟩ := ih h
      exact ⟨behind, hsplit ▸ hback.trans (List.suffix_append q rest), hleft⟩
    | case3 c s hc hnone ih =>
      obtain rfl := beq_iff_eq.mp hc
      rcases List.suffix_cons_iff.mp h with hhere | hlater
      · exact ⟨s, List.suffix_refl _, not_begins_escape_cons.mpr hnone,
          (List.cons.inj hhere).2.symm⟩
      · obtain ⟨behind, hback, hleft⟩ := ih hlater
        exact ⟨behind, hback.trans (List.suffix_cons ..), hleft⟩
    | case4 c s hc ih =>
      rcases List.suffix_cons_iff.mp h with hhere | hlater
      · exact absurd (List.cons.inj hhere).1.symm (by simpa using hc)
      · obtain ⟨behind, hback, hleft⟩ := ih hlater
        exact ⟨behind, hback.trans (List.suffix_cons ..), hleft⟩
  · rintro ⟨behind, ⟨before, rfl⟩, hnone, rfl⟩
    rw [strip_append (apart_escape_cons behind), strip_escape (not_begins_escape_cons.mp hnone)]
    exact List.suffix_append ..

/-- An escape that begins no sequence begins one when the text behind it has been stripped. -/
def Joins (s : Text) : Prop :=
  ∃ behind, escape :: behind <:+ s ∧ ¬ Begins (escape :: behind) ∧ Begins (escape :: strip behind)

theorem spells_strip : Spells (strip s) ↔ Joins s := by
  rw [spells_iff]
  constructor
  · rintro ⟨y, hback, hbegins⟩
    obtain ⟨behind, hbehind, hnone, rfl⟩ := escape_cons_suffix_strip.mp hback
    exact ⟨behind, hbehind, hnone, hbegins⟩
  · rintro ⟨behind, hbehind, hnone, hbegins⟩
    exact ⟨_, escape_cons_suffix_strip.mpr ⟨behind, hbehind, hnone, rfl⟩, hbegins⟩

theorem strip_eq_self_iff : strip s = s ↔ ¬ Spells s := by
  constructor
  · intro hself hspells
    obtain ⟨y, ⟨before, rfl⟩, q, hq, rest, hrest⟩ := spells_iff.mp hspells
    have hlength := congrArg List.length hself
    have hbefore := (strip_sublist before).length_le
    have hbehind := (strip_sublist rest).length_le
    rw [← hrest, strip_cut hq] at hlength
    obtain ⟨arguments, letter, -, -, rfl⟩ := hq
    simp only [List.length_append, List.length_cons] at hlength
    omega
  · intro h
    fun_induction strip s with
    | case1 => rfl
    | case2 c s hc rest hrest =>
      obtain rfl := beq_iff_eq.mp hc
      have hbegins : Begins (escape :: s) := begins_escape_cons.mpr (by rw [hrest]; rfl)
      exact absurd (spells_iff.mpr ⟨s, List.suffix_refl _, hbegins⟩) h
    | case3 c s hc hnone ih => rw [ih fun hs => h (hs.of_suffix (List.suffix_cons ..))]
    | case4 c s hc ih => rw [ih fun hs => h (hs.of_suffix (List.suffix_cons ..))]

theorem strip_cases (s : Text) :
    strip s = s ∨ ∃ kept q rest, IsSequence q ∧ s = kept ++ (q ++ rest) ∧
      strip s = kept ++ strip rest := by
  fun_induction strip s with
  | case1 => exact .inl rfl
  | case2 c s hc rest hrest =>
    obtain rfl := beq_iff_eq.mp hc
    obtain ⟨q, hq, hsplit⟩ := afterSequence?_eq_some.mp hrest
    exact .inr ⟨[], q, rest, hq, hsplit, rfl⟩
  | case3 c s hc hnone ih | case4 c s hc ih =>
    refine ih.imp (congrArg (c :: ·)) ?_
    rintro ⟨kept, q, rest, hq, hsplit, hleft⟩
    exact ⟨c :: kept, q, rest, hq, congrArg (c :: ·) hsplit, congrArg (c :: ·) hleft⟩

theorem Joins.exists_beginning (h : Joins s) :
    ∃ beginning q, IsBeginning beginning ∧ IsSequence q ∧ beginning ++ q <:+: s := by
  obtain ⟨behind, hback, hnone, inner, hinner, hfront⟩ := h
  rcases strip_cases behind with hself | ⟨kept, q, rest, hq, rfl, hleft⟩
  · rw [hself] at hfront
    exact absurd ⟨inner, hinner, hfront⟩ hnone
  · -- The sequence that is joined goes on behind what was kept: before that the text spells none.
    have hkept : ¬ inner <+: escape :: kept := fun hin =>
      hnone ⟨inner, hinner, hin.trans (List.prefix_append (escape :: kept) _)⟩
    rw [hleft] at hfront
    have hbeginning : escape :: kept <+: inner :=
      (List.prefix_or_prefix_of_prefix hfront
        (List.prefix_append (escape :: kept) (strip rest))).resolve_left hkept
    refine ⟨escape :: kept, q, ⟨nofun, inner, hinner, hbeginning, ?_⟩, hq, ?_⟩
    · rintro rfl
      exact hkept (List.prefix_refl _)
    · refine List.IsInfix.trans ?_ hback.isInfix
      exact ⟨[], rest, by simp⟩

theorem joins_append_left (h : escape ∉ t) : Joins (t ++ s) ↔ Joins s := by
  have hsuffix {y : Text} : escape :: y <:+ t ++ s ↔ escape :: y <:+ s := by
    refine ⟨fun hback => ?_, fun hback => hback.trans (List.suffix_append ..)⟩
    rcases List.suffix_or_suffix_of_suffix hback (List.suffix_append t s) with hin | ⟨z, hz⟩
    · exact hin
    · obtain ⟨w, hw⟩ := hback
      rw [← hz, ← List.append_assoc, List.append_cancel_right_eq] at hw
      cases z with
      | nil => exact ⟨[], hz.symm⟩
      | cons c z =>
        obtain rfl := (List.cons.inj hz).1
        exact absurd (hw ▸ List.mem_append_right w (List.mem_cons_self ..)) h
  simp only [Joins, hsuffix]

end Ansi

namespace Log

theorem escape_notMem_levelName (level : Int) : Ansi.escape ∉ levelName level := by
  have hnames : ∀ entry ∈ names, Ansi.escape ∉ entry.1 := by decide
  have hdigits (n : Nat) : Ansi.escape ∉ Text.ofNat n := fun hc =>
    absurd (Nat.isDigit_of_mem_toDigits (by decide) (by decide) hc) (by decide)
  rw [levelName]
  split
  · rename_i found hfound
    exact hnames _ (List.mem_of_find?_eq_some hfound)
  · have hnumber : Ansi.escape ∉ Text.ofInt level := by
      cases level with
      | ofNat n => exact hdigits n
      | negSucc n => exact not_or.mpr ⟨by decide, hdigits (n + 1)⟩ ∘ List.mem_cons.mp
    exact not_or.mpr ⟨by decide, hnumber⟩ ∘ List.mem_append.mp

theorem spells_plainText {time : Text} (htime : Ansi.escape ∉ time) (logger : Text) (r : Record) :
    Ansi.Spells (plainText time logger r) ↔ Ansi.Joins (logger ++ (": ".toList ++ r.message)) := by
  have hopened : Ansi.escape ∉ time ++ " [".toList :=
    not_or.mpr ⟨htime, by decide⟩ ∘ List.mem_append.mp
  have hnamed : Ansi.escape ∉ time ++ " [".toList ++ levelName r.level :=
    not_or.mpr ⟨hopened, escape_notMem_levelName r.level⟩ ∘ List.mem_append.mp
  have hfront : Ansi.escape ∉ time ++ " [".toList ++ levelName r.level ++ "] ".toList :=
    not_or.mpr ⟨hnamed, by decide⟩ ∘ List.mem_append.mp
  rw [plainText, Ansi.spells_strip, List.append_assoc _ logger, List.append_assoc _ (logger ++ _),
    List.append_assoc logger, Ansi.joins_append_left hfront]

theorem spells_consoleText (r : Record) :
    Ansi.Spells (consoleText false r) ↔ Ansi.Joins r.message := by
  have hname : Ansi.escape ∉ '[' :: levelName r.level :=
    not_or.mpr ⟨by decide, escape_notMem_levelName r.level⟩ ∘ List.mem_cons.mp
  have hfront : Ansi.escape ∉ '[' :: levelName r.level ++ "] ".toList :=
    not_or.mpr ⟨hname, by decide⟩ ∘ List.mem_append.mp
  rw [consoleText, if_neg Bool.false_ne_true, Ansi.spells_strip, Ansi.joins_append_left hfront]

end Log

namespace Ansi

/-- Every sequence that stands in a text is taken out, and nothing else is. A sequence is left just
when an escape that begins none is joined with what comes to stand behind it, and then the beginning
of a sequence stood directly in front of another. -/
theorem strip_once (s : Text) :
    (¬ Spells s → strip s = s) ∧
    (∀ before q behind, s = before ++ (q ++ behind) → IsSequence q →
      strip s = strip before ++ strip behind) ∧
    (Spells (strip s) ↔ Joins s) ∧
    (strip (strip s) = strip s ↔ ¬ Joins s) ∧
    (Joins s → ∃ beginning q, IsBeginning beginning ∧ IsSequence q ∧ beginning ++ q <:+: s) ∧
    ∀ logger r,
      (∀ time, escape ∉ time →
        (Spells (Log.plainText time logger r) ↔ Joins (logger ++ (": ".toList ++ r.message)))) ∧
      (Spells (Log.consoleText false r) ↔ Joins r.message) := by
  refine ⟨strip_eq_self_iff.mpr, ?_, spells_strip, ?_, Joins.exists_beginning, fun logger r =>
    ⟨fun time htime => Log.spells_plainText htime logger r, Log.spells_consoleText r⟩⟩
  · rintro before q behind rfl hq
    exact strip_cut hq before behind
  · rw [strip_eq_self_iff, spells_strip]

def parted : Text := escape :: '[' :: (reset ++ "0m".toList)

theorem isSequence_reset : IsSequence reset :=
  ⟨"0".toList, 'm', List.all_eq_true.mp (by decide), by decide, rfl⟩

theorem strip_parted : strip parted = reset := by decide +kernel

theorem joins_parted : Joins parted := by
  rw [← spells_strip, strip_parted]
  exact ⟨reset, isSequence_reset, List.infix_refl _⟩

def noon : Text := "2026-01-01 12:00:00,000".toList

theorem escape_notMem_noon : escape ∉ noon := by decide

theorem strip_once_parted :
    IsSequence reset ∧ Joins parted ∧ strip parted = strip [escape, '['] ++ strip "0m".toList ∧
      Spells (strip parted) ∧ strip (strip parted) ≠ strip parted ∧
      (∃ beginning q, IsBeginning beginning ∧ IsSequence q ∧ beginning ++ q <:+: parted) ∧
      strip "[0m".toList = "[0m".toList ∧ escape ∉ noon ∧
      Spells (Log.plainText noon "tabline.x".toList ⟨20, parted⟩) := by
  obtain ⟨-, hcut, hspells, hself, hbeginning, hlogs⟩ := strip_once parted
  have hplain : ¬ Spells "[0m".toList := by
    rw [← strip_eq_self_iff]
    decide +kernel
  have hlog : Joins ("tabline.x".toList ++ (": ".toList ++ parted)) := by
    rw [joins_append_left (by decide), joins_append_left (by decide)]
    exact joins_parted
  exact ⟨isSequence_reset, joins_parted, hcut [escape, '['] reset _ rfl isSequence_reset,
    hspells.mpr joins_parted, fun h => hself.mp h joins_parted, hbeginning joins_parted,
    (strip_once "[0m".toList).1 hplain, escape_notMem_noon,
    ((hlogs "tabline.x".toList ⟨20, parted⟩).1 noon escape_notMem_noon).mpr hlog⟩

/-- A reset is left of it, in a log as well. -/
theorem strip_parted_spells :
    Spells (strip parted) ∧ strip (strip parted) ≠ strip parted ∧
      ∃ r, r.message = parted ∧ Spells (Log.plainText noon "tabline.x".toList r) := by
  have hreset : Spells reset := ⟨reset, isSequence_reset, List.infix_refl _⟩
  refine ⟨strip_parted ▸ hreset, ?_, ⟨20, parted⟩, rfl, ?_⟩
  · rw [strip_parted]
    exact fun hself => strip_eq_self_iff.mp hself hreset
  · have hline : Log.plainText noon "tabline.x".toList ⟨20, parted⟩ =
        "2026-01-01 12:00:00,000 [INFO] tabline.x: ".toList ++ reset := by decide +kernel
    rw [hline]
    exact hreset.of_suffix (List.suffix_append ..)

/-! ## Styles -/

theorem isSequence_style {name code : Text} (h : style? name = some code) : IsSequence code := by
  have hcodes : ∀ entry ∈ styles, entry.2.all isArgument = true := by decide
  obtain ⟨arguments, hlookup, rfl⟩ := Option.map_eq_some_iff.mp h
  obtain ⟨before, behind, hstyles, -⟩ := List.lookup_eq_some_iff.mp hlookup
  have hin : (name, arguments) ∈ styles :=
    hstyles ▸ List.mem_append_right before (List.mem_cons_self ..)
  exact ⟨arguments, 'm', List.all_eq_true.mp (hcodes _ hin), by decide, rfl⟩

theorem strip_flatten_append {codes : List Text} (h : ∀ code ∈ codes, IsSequence code)
    (t : Text) : strip (codes.flatten ++ t) = strip t := by
  induction codes with
  | nil => rfl
  | cons code codes ih =>
    obtain ⟨hcode, hcodes⟩ := List.forall_mem_cons.mp h
    rw [List.flatten_cons, List.append_assoc, strip_sequence_append hcode, ih hcodes]

/-- Styles do not show when a text is stripped, whatever stands at its ends. -/
theorem strip_colorize (s : Text) (names : List Text) : strip (colorize s names) = strip s := by
  have hcodes : ∀ code ∈ names.filterMap style?, IsSequence code := by
    intro code hcode
    obtain ⟨name, -, hstyle⟩ := List.mem_filterMap.mp hcode
    exact isSequence_style hstyle
  rw [colorize]
  split
  · rfl
  · have hapart : Apart reset := apart_escape_cons _
    have hreset : strip reset = [] := by decide +kernel
    rw [List.append_assoc, strip_flatten_append hcodes, strip_append hapart, hreset,
      List.append_nil]

end Ansi

end CommandShell
