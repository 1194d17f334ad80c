import CommandShell.Token.Scan

/-!
The tokens of a text and the gaps between them tile it. `Tiles` follows the scanner from one gap to
the next; `Tiling` says of the offsets in the whole text what follows.
-/

set_option autoImplicit false

namespace CommandShell

open Sign

/-- What may stand between two tokens: blanks, and after them a comment. A comment runs to the end
of its line, so the text `after` it is empty or begins with a line end. -/
inductive Gap (after : Text) : Text → Prop where
  | nil : Gap after []
  | blank {c : Char} {gap : Text} : isBlank c = true → Gap after gap → Gap after (c :: gap)
  | comment {body : Text} : '\n' ∉ body → (∀ c ∈ after.head?, c = '\n') → Gap after ('#' :: body)

/-- A text that begins at offset `start` is made of gaps and of these tokens in turn. -/
inductive Tiles : Nat → Text → List Token → Prop where
  | done {start : Nat} {gap : Text} : Gap [] gap → Tiles start gap []
  | token {start : Nat} {gap rest : Text} {t : Token} {ts : List Token} :
      Gap (t.text ++ rest) gap → t.start = start + gap.length → t.text ≠ [] →
      Tiles t.stop rest ts → Tiles start (gap ++ (t.text ++ rest)) (t :: ts)

theorem Gap.eq_nil {after gap rest : Text} (h : Gap after gap) (hr : gap ++ after = '\n' :: rest) :
    gap = [] := by
  cases h with
  | nil => rfl
  | blank hb _ =>
    obtain ⟨rfl, -⟩ := List.cons.inj hr
    exact absurd hb (by decide)
  | comment => simp at hr

theorem Tiles.blank {start : Nat} {c : Char} {s : Text} {ts : List Token} (hb : isBlank c = true)
    (h : Tiles (start + 1) s ts) : Tiles start (c :: s) ts := by
  cases h with
  | done hg => exact .done (.blank hb hg)
  | @token _ gap rest t ts hg hs ht hr =>
    refine @Tiles.token _ (c :: gap) _ _ _ (.blank hb hg) ?_ ht hr
    simp only [List.length_cons]; omega

theorem Tiles.comment {start : Nat} {body s : Text} {ts : List Token} (hb : '\n' ∉ body)
    (hs : ∀ c ∈ s.head?, c = '\n') (h : Tiles (start + 1 + body.length) s ts) :
    Tiles start ('#' :: body ++ s) ts := by
  cases h with
  | done hg =>
    -- the next character ends the line, so neither blanks nor a second comment follow
    have hnil : s = [] := by
      cases s with
      | nil => rfl
      | cons c rest =>
        obtain rfl : c = '\n' := hs c rfl
        exact hg.eq_nil (List.append_nil _)
    subst hnil
    rw [List.append_nil]
    exact .done (.comment hb (by simp))
  | @token _ gap rest t ts hg hstart ht hr =>
    have hnil : gap = [] := by
      cases hc : gap ++ (t.text ++ rest) with
      | nil => exact (List.append_eq_nil_iff.mp hc).1
      | cons c more =>
        rw [hc] at hs
        obtain rfl : c = '\n' := hs c rfl
        exact hg.eq_nil hc
    subst hnil
    refine .token (.comment hb hs) ?_ ht hr
    simp only [List.length_cons, List.length_nil] at hstart ⊢; omega

theorem head?_dropWhile_line (s : Text) : ∀ c ∈ (s.dropWhile (· != '\n')).head?, c = '\n' := by
  intro c hc
  have h := List.head?_dropWhile_not (· != '\n') s
  rw [Option.mem_def.mp hc] at h
  simpa using h

theorem notMem_takeWhile_line (s : Text) : '\n' ∉ s.takeWhile (· != '\n') := by
  intro h
  have hall := List.all_takeWhile (p := (· != '\n')) (l := s)
  simpa using List.all_eq_true.mp hall _ h

theorem Lexeme.scanAll_tiles (start : Nat) (s : Text) :
    Tiles start s ((scanAll start s).map Token.ofLexeme) := by
  fun_induction scanAll start s with
  | case1 start => exact .done .nil
  | case2 start c rest hb ih => exact ih.blank hb
  | case3 start c rest hb hc ih =>
    obtain rfl : c = '#' := by simpa using hc
    have h := ih.comment (notMem_takeWhile_line rest) (head?_dropWhile_line rest)
    simpa using h
  | case4 start c rest hb hc ih =>
    have hraw : (scan c rest).raw ≠ [] :=
      List.ne_nil_of_length_pos (scan_raw_length_pos (by simpa using hb))
    have h := Tiles.token (t := Token.ofLexeme (start, scan c rest)) .nil rfl hraw ih
    rwa [Token.ofLexeme_text, List.nil_append, scan_raw_append_rest] at h

theorem Tiles.bounds {start : Nat} {s : Text} {ts : List Token} (h : Tiles start s ts) :
    ∀ t ∈ ts, start ≤ t.start ∧ t.start < t.stop ∧ t.stop ≤ start + s.length := by
  induction h with
  | done => simp
  | @token start gap rest t ts hg hs ht hr ih =>
    have hpos : 0 < t.text.length := List.length_pos_iff.mpr ht
    have hstop : t.stop = t.start + t.text.length := rfl
    simp only [List.length_append]
    intro u hu
    rcases List.mem_cons.mp hu with rfl | hu
    · omega
    · have := ih u hu
      omega

theorem Tiles.ordered {start : Nat} {s : Text} {ts : List Token} (h : Tiles start s ts) :
    ts.Pairwise fun t u => t.stop ≤ u.start := by
  induction h with
  | done => exact .nil
  | token _ _ _ hr ih => exact .cons (fun u hu => (hr.bounds u hu).1) ih

theorem Tiles.slice_eq {start : Nat} {s : Text} {ts : List Token} (h : Tiles start s ts)
    (before : Text) (hb : before.length = start) :
    ∀ t ∈ ts, Text.slice (before ++ s) t.start t.stop = t.text := by
  induction h generalizing before with
  | done => simp
  | @token start gap rest t ts hg hs ht hr ih =>
    have hlen : t.start = (before ++ gap).length := by rw [hs, List.length_append, hb]
    have hstop : t.stop = t.start + t.text.length := rfl
    intro u hu
    rcases List.mem_cons.mp hu with rfl | hu
    · rw [hstop, hlen, ← List.append_assoc]
      exact Text.slice_append _ _ _
    · have hnext : (before ++ gap ++ t.text).length = t.stop := by
        rw [List.length_append, ← hlen, hstop]
      have := ih _ hnext u hu
      simpa only [List.append_assoc] using this

def CanStartToken (s : Text) (ts : List Token) (i : Nat) : Prop :=
  ∃ p ≤ i, (p = 0 ∨ ∃ t ∈ ts, t.stop = p) ∧ ∀ c ∈ Text.slice s p i, isBlank c = true

structure IsComment (s : Text) (ts : List Token) (i j : Nat) : Prop where
  opens : CanStartToken s ts i
  sign : s[i]? = some '#'
  inLine : '\n' ∉ Text.slice s i j
  ends : j = s.length ∨ s[j]? = some '\n'

theorem Gap.split {after gap : Text} (h : Gap after gap) :
    ∃ blanks comment, gap = blanks ++ comment ∧ (∀ c ∈ blanks, isBlank c = true) ∧
      (comment = [] ∨
        ∃ body, comment = '#' :: body ∧ '\n' ∉ body ∧ ∀ c ∈ after.head?, c = '\n') := by
  induction h with
  | nil => exact ⟨[], [], rfl, by simp, .inl rfl⟩
  | @blank c gap hb _ ih =>
    obtain ⟨blanks, comment, rfl, hall, hc⟩ := ih
    exact ⟨c :: blanks, comment, rfl, by simpa using ⟨hb, hall⟩, hc⟩
  | @comment body hb ha => exact ⟨[], _, rfl, by simp, .inr ⟨body, rfl, hb, ha⟩⟩

theorem IsComment.of_append {before blanks body after : Text} {ts : List Token}
    (hb : before.length = 0 ∨ ∃ t ∈ ts, t.stop = before.length)
    (hall : ∀ c ∈ blanks, isBlank c = true) (hbody : '\n' ∉ body)
    (hafter : ∀ c ∈ after.head?, c = '\n') :
    IsComment (before ++ (blanks ++ ('#' :: body ++ after))) ts (before.length + blanks.length)
      (before.length + blanks.length + ('#' :: body).length) where
  opens := by
    refine ⟨before.length, Nat.le_add_right _ _, hb, ?_⟩
    rw [Text.slice_append]
    exact hall
  sign := by
    rw [← List.append_assoc, ← List.length_append, List.getElem?_append_right (Nat.le_refl _)]
    simp
  inLine := by
    rw [← List.append_assoc, ← List.length_append, Text.slice_append]
    simpa using hbody
  ends := by
    have hfront : before.length + blanks.length + ('#' :: body).length
        = (before ++ (blanks ++ '#' :: body)).length := by
      simp only [List.length_append]; omega
    have hwhole : before ++ (blanks ++ ('#' :: body ++ after))
        = (before ++ (blanks ++ '#' :: body)) ++ after := by simp
    rw [hfront, hwhole]
    cases after with
    | nil => left; simp
    | cons d rest =>
      obtain rfl : d = '\n' := hafter d rfl
      right
      rw [List.getElem?_append_right (Nat.le_refl _)]
      simp

theorem Gap.covers {before gap after : Text} {ts : List Token} (h : Gap after gap)
    (hb : before.length = 0 ∨ ∃ t ∈ ts, t.stop = before.length) {i : Nat} {c : Char}
    (hi : before.length ≤ i) (hj : i < before.length + gap.length)
    (hc : (before ++ (gap ++ after))[i]? = some c) :
    isBlank c = true ∨
      ∃ a b, IsComment (before ++ (gap ++ after)) ts a b ∧ a ≤ i ∧ i < b := by
  obtain ⟨blanks, comment, rfl, hall, hcom⟩ := h.split
  rw [List.append_assoc] at hc ⊢
  rw [List.length_append] at hj
  by_cases hin : i < before.length + blanks.length
  · rw [List.getElem?_append_right hi, List.getElem?_append_left (by omega)] at hc
    exact .inl (hall c (List.mem_of_getElem? hc))
  · rcases hcom with rfl | ⟨body, rfl, hbody, hafter⟩
    · simp only [List.length_nil] at hj; omega
    · exact .inr ⟨_, _, .of_append hb hall hbody hafter, by omega, by omega⟩

theorem Tiles.covers {start : Nat} {s : Text} {ts : List Token} (h : Tiles start s ts)
    (before : Text) {all : List Token} (hb : before.length = start)
    (hs : start = 0 ∨ ∃ t ∈ all, t.stop = start) (ha : ∀ t ∈ ts, t ∈ all) {i : Nat} {c : Char}
    (hi : start ≤ i) (hc : (before ++ s)[i]? = some c) :
    (∃ t ∈ all, t.start ≤ i ∧ i < t.stop) ∨ isBlank c = true ∨
      ∃ a b, IsComment (before ++ s) all a b ∧ a ≤ i ∧ i < b := by
  induction h generalizing before with
  | @done start gap hg =>
    subst hb
    have hlen := (List.getElem?_eq_some_iff.mp hc).1
    rw [List.length_append] at hlen
    have := hg.covers hs hi hlen (by simpa using hc)
    exact .inr (by simpa using this)
  | @token start gap rest t ts hg ht hne hr ih =>
    subst hb
    have hstop : t.stop = t.start + t.text.length := rfl
    by_cases hgap : i < before.length + gap.length
    · exact .inr (hg.covers hs hi hgap hc)
    · by_cases htok : i < t.stop
      · exact .inl ⟨t, ha t (by simp), by omega, htok⟩
      · have hnext : (before ++ gap ++ t.text).length = t.stop := by
          simp only [List.length_append]; omega
        have := ih _ hnext (.inr ⟨t, ha t (by simp), rfl⟩) (fun u hu => ha u (by simp [hu]))
          (by omega) (by simpa only [List.append_assoc] using hc)
        simpa only [List.append_assoc] using this

theorem Lexeme.operator_kind (c : Char) (rest : Text) : (operator c rest).kind = .operator := by
  fun_cases operator c rest <;> rfl

theorem Lexeme.parameter_kind (dash : Char) (s : Text) :
    (parameter dash s).kind = .parameter := by
  fun_cases parameter dash s <;> rfl

theorem Lexeme.word_kind (s : Text) : (word s).kind = .bare ∨ (word s).kind = .number := by
  unfold word
  dsimp only
  split
  · exact .inr rfl
  · exact .inl rfl

theorem Lexeme.scan_kind (c : Char) (rest : Text) : (scan c rest).kind ≠ .endOfInput := by
  have hword := word_kind (c :: rest)
  fun_cases scan c rest with
  | case1 => simp [operator_kind]
  | case2 => simp [quoted]
  | case3 => simp [quoted]
  | case4 => simp [reference]
  | case5 => rcases hword with h | h <;> simp [h]
  | case6 => simp [parameter_kind]
  | case7 => rcases hword with h | h <;> simp [h]

theorem Lexeme.exists_scan_of_mem {start : Nat} {s : Text} {p : Placed} (h : p ∈ scanAll start s) :
    ∃ c rest, isBlank c = false ∧ p.2 = scan c rest := by
  fun_induction scanAll start s with
  | case1 => simp at h
  | case2 _ _ _ _ ih => exact ih h
  | case3 _ _ _ _ _ ih => exact ih h
  | case4 start c rest hb hc ih =>
    rcases List.mem_cons.mp h with rfl | h
    · exact ⟨c, rest, by simpa using hb, rfl⟩
    · exact ih h

/-- How tokens lie in their text. Each covers a part of it that is not empty, in order and without
overlap; what they leave uncovered is blank or in a comment. -/
structure Tiling (s : Text) (ts : List Token) : Prop where
  tiles : Tiles 0 s ts
  kind_ne : ∀ t ∈ ts, t.kind ≠ .endOfInput
  bounds : ∀ t ∈ ts, t.start < t.stop ∧ t.stop ≤ s.length
  slice_eq : ∀ t ∈ ts, Text.slice s t.start t.stop = t.text
  ordered : ts.Pairwise fun t u => t.stop ≤ u.start
  covers : ∀ i c, s[i]? = some c → (∃ t ∈ ts, t.start ≤ i ∧ i < t.stop) ∨ isBlank c = true ∨
    ∃ a b, IsComment s ts a b ∧ a ≤ i ∧ i < b

theorem tiling_scanAll (s : Text) : Tiling s ((Lexeme.scanAll 0 s).map Token.ofLexeme) := by
  have h := Lexeme.scanAll_tiles 0 s
  refine ⟨h, ?_, ?_, h.slice_eq [] rfl, h.ordered, ?_⟩
  · intro t ht
    obtain ⟨p, hp, rfl⟩ := List.mem_map.mp ht
    obtain ⟨c, rest, -, hl⟩ := Lexeme.exists_scan_of_mem hp
    simpa [Token.ofLexeme, hl] using Lexeme.scan_kind c rest
  · intro t ht
    have := h.bounds t ht
    omega
  · intro i c hc
    exact h.covers [] rfl (.inl rfl) (fun _ ht => ht) (Nat.zero_le i) hc

def Token.read (strict : Bool) (s : Text) : Except SyntaxFault (List Token) :=
  if strict then scanStrict s else .ok (scan s)

theorem Token.eq_scan_of_read {strict : Bool} {s : Text} {tokens : List Token}
    (h : read strict s = .ok tokens) : tokens = scan s := by
  cases strict with
  | false => exact (Except.ok.inj h).symm
  | true =>
    simp only [read, if_true, scanStrict] at h
    split at h
    · cases h
    · exact (Except.ok.inj h).symm

/-- Whichever way a text is read, its tokens tile it, and the end of the input follows them. -/
theorem Token.read_tiling {strict : Bool} {s : Text} {tokens : List Token}
    (h : read strict s = .ok tokens) :
    ∃ ts, tokens = ts ++ [finish s.length] ∧ Tiling s ts :=
  ⟨_, eq_scan_of_read h, tiling_scanAll s⟩

theorem Token.read_tiling_mixed_line :
    read true "a`#'b''c'!< \t# x 'y\n-N:\"y # z\",$?!> #".toList =
        .ok (scan "a`#'b''c'!< \t# x 'y\n-N:\"y # z\",$?!> #".toList) ∧
      ∃ ts, scan "a`#'b''c'!< \t# x 'y\n-N:\"y # z\",$?!> #".toList = ts ++ [finish 37] ∧
        Tiling "a`#'b''c'!< \t# x 'y\n-N:\"y # z\",$?!> #".toList ts :=
  have h : read true "a`#'b''c'!< \t# x 'y\n-N:\"y # z\",$?!> #".toList = _ :=
    scanStrict_eq_ok (by decide +kernel)
  ⟨h, read_tiling h⟩

end CommandShell
