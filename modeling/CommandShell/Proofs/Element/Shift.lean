import CommandShell.Element.Basic
import CommandShell.Proofs.Token.Separator

/-!
Elements of tokens that lie farther on.
-/

set_option autoImplicit false

namespace CommandShell.Element

def shift (n : Nat) : Element → Element
  | .parameter t stop => .parameter (t.shift n) (stop + n)
  | .value parts start stop => .value (parts.map (Token.shift n)) (start + n) (stop + n)

variable (n : Nat) (e : Element)

@[simp] theorem isParameter_shift : (e.shift n).isParameter = e.isParameter := by
  cases e <;> rfl

@[simp] theorem parts_shift : (e.shift n).parts = e.parts.map (Token.shift n) := by
  cases e <;> rfl

@[simp] theorem text_shift : (e.shift n).text = e.text := by
  simp [text, Function.comp_def]

@[simp] theorem raw_shift : (e.shift n).raw = e.raw := by
  simp [raw, Function.comp_def]

@[simp] theorem start_shift : (e.shift n).start = e.start + n := by
  cases e <;> rfl

@[simp] theorem stop_shift : (e.shift n).stop = e.stop + n := by
  cases e <;> rfl

@[simp] theorem inline_shift : (e.shift n).inline = e.inline := by
  cases e <;> rfl

@[simp] theorem contains_shift (cursor : Nat) :
    (e.shift n).contains ((cursor + n : Nat) : Int) = e.contains cursor := by
  rw [Bool.eq_iff_iff]
  simp only [contains, start_shift, stop_shift, Bool.and_eq_true, decide_eq_true_eq]
  omega

theorem listTail_shift (tokens : List Token) :
    listTail (tokens.map (Token.shift n)) =
      ((listTail tokens).1.map (Token.shift n), (listTail tokens).2.1.map (· + n),
        (listTail tokens).2.2.map (Token.shift n)) := by
  have hcomma (t : Token) : (t.shift n).isOperator [','] = t.isOperator [','] := rfl
  have hjoins (t : Token) : continuesList (t.shift n) = continuesList t := rfl
  fun_induction listTail tokens with
  | case1 => rfl
  | case2 t ht => simp [listTail, hcomma, ht]
  | case3 t ht => simp [listTail, hcomma, ht]
  | case4 t next rest ht hn parts stop left hl ih =>
    rw [hl] at ih
    simp [listTail, hcomma, ht, hjoins, hn, ih]
  | case5 t next rest ht hn => simp [listTail, hcomma, ht, hjoins, hn]
  | case6 t next rest ht => simp [listTail, hcomma, ht]

theorem ofParts_shift (first : Token) (others : List Token) (stop : Option Nat) :
    ofParts (first.shift n) (others.map (Token.shift n)) (stop.map (· + n)) =
      (ofParts first others stop).shift n := by
  have hlast : (((others.map (Token.shift n)).getLast?).getD (first.shift n)).stop =
      (others.getLast?.getD first).stop + n := by
    rw [List.getLast?_map]
    cases others.getLast? <;> simp
  simp only [ofParts, shift, List.map_cons, Token.shift_start, hlast]
  cases stop <;> rfl

theorem ofTokens_shift (tokens : List Token) :
    ofTokens (tokens.map (Token.shift n)) = (ofTokens tokens).map (shift n) := by
  fun_induction ofTokens tokens with
  | case1 => rw [List.map_nil, ofTokens_nil]; rfl
  | case2 t rest h ih =>
    rw [List.map_cons, ofTokens_skip (by simpa using h), ih]
  | case3 t rest h hp ih =>
    rw [List.map_cons, ofTokens_parameter (by simpa using hp), ih, List.map_cons, shift,
      Token.shift_stop]
  | case4 t rest h hp ih =>
    have hv : continuesList (t.shift n) = true := by
      simp only [continuesList, Token.shift_kind]
      simp_all
    rw [List.map_cons, ofTokens_value hv, listTail_shift, ih, ofParts_shift, List.map_cons]

theorem indexAt?_shift (elements : List Element) (cursor : Nat) :
    indexAt? (elements.map (shift n)) ((cursor + n : Nat) : Int) = indexAt? elements cursor := by
  rw [indexAt?, indexAt?, if_neg (by omega), if_neg (by omega), List.zipIdx_map, List.filter_map,
    List.getLast?_map, Option.map_map]
  simp only [Function.comp_def, Prod.map_fst, Prod.map_snd, contains_shift]
  rfl

end CommandShell.Element
