import CommandShell.Proofs.Quoting.Argument
import CommandShell.Proofs.Token.Inside
import CommandShell.Proofs.Token.Parameter

/-!
The grammar of the words that need no quotes. A word is scanned to its end as itself as long as it
has none of the characters that end a word or are expanded in one; only the angle sign of a sort
sentinel may end it. What a word may begin with is a matter of its first two characters.
-/

set_option autoImplicit false

namespace CommandShell

open Sign

namespace Sign

def reserved : List Char :=
  " \t\r".toList ++ ";|&,(){}<>\n".toList ++ ['\'', '‘', '’', '‚', '‛'] ++ ['"', '“', '”', '„'] ++
    [backtick, '$']

theorem mem_reserved {c : Char} : c ∈ reserved ↔ isBlank c = true ∨ isOperator c = true ∨
    isSingleQuote c = true ∨ isDoubleQuote c = true ∨ c = backtick ∨ c = '$' := by
  constructor
  · have hall : reserved.all (fun c => isBlank c || (isOperator c || (isSingleQuote c ||
        (isDoubleQuote c || (c == backtick || c == '$'))))) = true := by decide +kernel
    intro hc
    simpa only [Bool.or_eq_true, beq_iff_eq] using List.all_eq_true.mp hall c hc
  · intro h
    simp only [reserved, List.mem_append, or_assoc]
    refine h.imp (fun h => ?_) (Or.imp List.contains_iff_mem.mp (Or.imp mem_of_isSingleQuote
      (Or.imp mem_of_isDoubleQuote fun h => by simpa using h)))
    simpa [isBlank, or_assoc] using h

def dashes : List Char := ['-', '–', '—', '―']

theorem mem_dashes {c : Char} : c ∈ dashes ↔ isDash c = true := by
  constructor
  · have hall : dashes.all isDash = true := by decide +kernel
    exact List.all_eq_true.mp hall c
  · intro h
    simpa [dashes] using eq_of_isDash h

def isAngle (c : Char) : Bool := c == '<' || c == '>'

theorem isOrdinary_of_notMem {c : Char} (h : c ∉ reserved) : IsOrdinary c ∧ c ≠ '$' := by
  simp only [mem_reserved, not_or, Bool.not_eq_true] at h
  obtain ⟨hb, ho, hs, hd, he, hr⟩ := h
  have hline : (c == '\n') = false := by
    refine beq_eq_false_iff_ne.mpr ?_
    rintro rfl
    exact absurd ho (by decide)
  exact ⟨⟨hb, hline, ho, beq_eq_false_iff_ne.mpr he, hs, hd⟩, hr⟩

end Sign

namespace Word

/-- No character has a meaning of its own, but for an angle sign at the end that follows an
exclamation mark. `previous` is the character before. -/
def Unreserved (previous : Option Char) (s : Text) : Prop :=
  ∀ before c after, s = before ++ c :: after → c ∈ reserved →
    after = [] ∧ isAngle c = true ∧ (before.getLast?.or previous) = some '!'

theorem unreserved_nil (previous : Option Char) : Unreserved previous [] := by
  intro before c after h
  simp at h

theorem unreserved_cons {previous : Option Char} {c : Char} {s : Text} :
    Unreserved previous (c :: s) ↔
      (c ∈ reserved → s = [] ∧ isAngle c = true ∧ previous = some '!') ∧
        Unreserved (some c) s := by
  have hlast (before : Text) :
      (c :: before).getLast?.or previous = before.getLast?.or (some c) := by
    cases before <;> simp [List.getLast?_cons]
  constructor
  · intro h
    refine ⟨fun hc => h [] c s rfl hc, fun before d after hs hd => ?_⟩
    rw [← hlast]
    exact h (c :: before) d after (by rw [hs, List.cons_append]) hd
  · rintro ⟨hfirst, hrest⟩ before d after hs hd
    cases before with
    | nil =>
      obtain ⟨rfl, rfl⟩ := List.cons.inj hs
      exact hfirst hd
    | cons b before =>
      obtain ⟨rfl, rfl⟩ := List.cons.inj hs
      rw [hlast]
      exact hrest before d after rfl hd

theorem not_unreserved (cs : List Char)
    (hcs : cs.all (fun c => reserved.contains c && !isAngle c) = true) {c : Char} (hc : c ∈ cs)
    (previous : Option Char) (s : Text) : ¬ Unreserved previous (c :: s) := by
  intro h
  have hboth := List.all_eq_true.mp hcs c hc
  rw [Bool.and_eq_true, List.contains_iff_mem, Bool.not_eq_true'] at hboth
  obtain ⟨hreserved, hangle⟩ := hboth
  have hsign := ((unreserved_cons.mp h).1 hreserved).2.1
  rw [hangle] at hsign
  cases hsign

theorem not_unreserved_of_endsWord {c : Char} (hc : endsWord [c] = true) (previous : Option Char)
    (s : Text) : ¬ Unreserved previous (c :: s) := by
  refine not_unreserved " \t\r\n".toList (by decide +kernel) ?_ previous s
  simpa [endsWord, isBlank, or_assoc] using hc

/-- A word is read to the end of the text, and as itself, exactly if it has no character with
another meaning. -/
theorem scan_whole_iff (previous : Option Char) (s : Text) :
    (scan previous s).literal = true ∧ (scan previous s).rest = [] ↔ Unreserved previous s := by
  fun_induction scan previous s with
  | case1 => simp [nothing, unreserved_nil]
  | case2 previous c rest hb =>
    exact iff_of_false (fun h => List.cons_ne_nil c rest h.2)
      (not_unreserved_of_endsWord hb previous rest)
  | case3 previous c rest hb ho hs ih =>
    simp only [Bool.and_eq_true, beq_iff_eq] at hs
    obtain ⟨⟨hangle, hprevious⟩, hend⟩ := hs
    simp only [after, Bool.true_and, ih, unreserved_cons]
    refine ⟨fun h => ⟨fun _ => ⟨?_, hangle, hprevious⟩, h⟩, And.right⟩
    cases rest with
    | nil => rfl
    | cons d rest => exact absurd h (not_unreserved_of_endsWord hend _ rest)
  | case4 previous c rest hb ho hs =>
    refine iff_of_false (fun h => List.cons_ne_nil c rest h.2) fun h => hs ?_
    obtain ⟨rfl, hangle, rfl⟩ := (unreserved_cons.mp h).1 (mem_reserved.mpr (.inr (.inl ho)))
    rw [show (c == '<' || c == '>') = true from hangle]
    rfl
  -- an escape, a quote or a dollar sign is not itself
  | case5 previous c hb ho he | case6 previous c hb ho he =>
    refine iff_of_false (fun h => Bool.false_ne_true h.1) (not_unreserved [backtick] ?_ ?_ _ _)
    · decide +kernel
    · simpa using he
  | case7 previous c rest hb ho he hs | case8 previous c rest hb ho he hs =>
    exact iff_of_false (fun h => Bool.false_ne_true h.1)
      (not_unreserved _ (by decide +kernel) (mem_of_isSingleQuote hs) _ _)
  | case9 previous c rest hb ho he hs hd | case10 previous c rest hb ho he hs hd =>
    exact iff_of_false (fun h => Bool.false_ne_true h.1)
      (not_unreserved _ (by decide +kernel) (mem_of_isDoubleQuote hd) _ _)
  | case11 previous c rest hb ho he hs hd ih =>
    by_cases hdollar : c = '$'
    · subst hdollar
      exact iff_of_false (fun h => Bool.false_ne_true h.1)
        (not_unreserved ['$'] (by decide +kernel) (List.mem_singleton_self _) _ _)
    · have hfree : c ∉ reserved := by
        simp only [Bool.or_eq_true, not_or, beq_iff_eq] at hb he
        simp only [mem_reserved, not_or]
        exact ⟨hb.1, ho, hs, hd, he, hdollar⟩
      simp [after, ih, unreserved_cons, hfree, hdollar]

end Word

namespace Lexeme

theorem word_isPlain (s : Text) :
    (word s).isPlain = ((Word.scan none s).literal && s.head? != some '@') := by
  simp only [isPlain, word]
  split <;> simp

theorem scan_eq_word {c : Char} {rest : Text} (hc : c ∉ reserved)
    (hdash : (isDash c && rest.head?.any startsParameter) = false) :
    scan c rest = word (c :: rest) := by
  obtain ⟨⟨-, -, ho, -, hs, hd⟩, hdollar⟩ := isOrdinary_of_notMem hc
  rw [scan, ho, hs, hd, beq_eq_false_iff_ne.mpr hdollar, hdash]
  rfl

end Lexeme

namespace Quoting

/-- The grammar of the words that need no quotes. -/
structure IsBareWord (v : Text) : Prop where
  nonempty : v ≠ []
  /-- No comment sign and no splatting sign comes first. -/
  start : v.head? ≠ some '#' ∧ v.head? ≠ some '@'
  /-- No dash at the start has a character behind it that begins a parameter's name. -/
  parameter : ∀ dash c rest, v = dash :: c :: rest → dash ∈ dashes →
    ¬ (Text.isAlphabetic c = true ∨ c = '_' ∨ c = '?')
  /-- Reserved characters are missing. Only the last character may be an angle sign, if an
  exclamation mark stands before it. -/
  unreserved : ∀ before c after, v = before ++ c :: after → c ∈ reserved →
    after = [] ∧ (c = '<' ∨ c = '>') ∧ before.getLast? = some '!'

theorem unreserved_iff {v : Text} : Word.Unreserved none v ↔
    ∀ before c after, v = before ++ c :: after → c ∈ reserved →
      after = [] ∧ (c = '<' ∨ c = '>') ∧ before.getLast? = some '!' := by
  simp only [Word.Unreserved, isAngle, Bool.or_eq_true, beq_iff_eq, Option.or_none]

theorem beginsParameter_iff {c : Char} {rest : Text} :
    (isDash c && rest.head?.any startsParameter) = false ↔
      ∀ dash d more, c :: rest = dash :: d :: more → dash ∈ dashes →
        ¬ (Text.isAlphabetic d = true ∨ d = '_' ∨ d = '?') := by
  have hstarts (d : Char) :
      startsParameter d = true ↔ Text.isAlphabetic d = true ∨ d = '_' ∨ d = '?' := by
    simp [startsParameter, or_assoc]
  cases rest with
  | nil => simp
  | cons d rest =>
    rw [← Bool.not_eq_true, Bool.and_eq_true, List.head?_cons, Option.any_some, hstarts,
      ← mem_dashes, not_and]
    constructor
    · rintro h _ _ _ ⟨⟩ hdash
      exact h hdash
    · exact fun h => h c d rest rfl

/-- A value needs no quotes exactly if it is a word of the grammar. -/
theorem needsQuoting_eq_false_iff_isBareWord (v : Text) :
    needsQuoting v = false ↔ IsBareWord v := by
  rw [needsQuoting_eq_false_iff]
  cases v with
  | nil => exact iff_of_false Bool.false_ne_true fun h => h.nonempty rfl
  | cons c rest =>
    simp only [isPlain, Bool.and_eq_true, Bool.not_eq_true', List.isEmpty_iff]
    constructor
    · rintro ⟨⟨⟨-, hcomment⟩, hplain⟩, hrest⟩
      obtain ⟨hword, -, -, -, -, hdash⟩ := Lexeme.scan_eq_word_of_isPlain hplain
      rw [hword] at hplain hrest
      rw [Lexeme.word_isPlain, Bool.and_eq_true] at hplain
      have hwhole := (Word.scan_whole_iff none _).mp ⟨hplain.1, hrest⟩
      exact ⟨List.cons_ne_nil c rest, ⟨by simpa using hcomment, by simpa using hplain.2⟩,
        beginsParameter_iff.mp hdash, unreserved_iff.mp hwhole⟩
    · rintro ⟨-, ⟨hcomment, hsplat⟩, hdash, hfree⟩
      have hwhole := unreserved_iff.mpr hfree
      have hc : c ∉ reserved := fun hc =>
        Option.some_ne_none '!' ((Word.unreserved_cons.mp hwhole).1 hc).2.2.symm
      rw [Lexeme.scan_eq_word hc (beginsParameter_iff.mpr hdash), Lexeme.word_isPlain]
      obtain ⟨hliteral, hrest⟩ := (Word.scan_whole_iff none _).mpr hwhole
      refine ⟨⟨⟨(isOrdinary_of_notMem hc).1.blank, by simpa using hcomment⟩, ?_⟩, hrest⟩
      rw [hliteral]
      simpa using hsplat

end Quoting

end CommandShell
