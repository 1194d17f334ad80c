import CommandShell.Proofs.Completion.Name

/-!
Suggestions replace the last word of a line, which blanks end, and candidates replace what the
tokens say. The two agree as long as no blank stands in what a candidate replaces.
-/

set_option autoImplicit false

namespace CommandShell

open Sign

namespace Completion

variable {σ : Type} {context : Context σ} {line : Text} {x : Candidate}

def isGap (c : Char) : Bool := c == ' ' || c == '\t' || c == '\n'

theorem wordStart_eq (line : Text) :
    wordStart line = line.length - (line.reverse.takeWhile fun c => !isGap c).length := rfl

theorem wordStart_le_iff {start : Nat} (h : start ≤ line.length) :
    wordStart line ≤ start ↔ ∀ c ∈ line.drop start, isGap c = false := by
  have hreverse : line.reverse = (line.drop start).reverse ++ (line.take start).reverse := by
    rw [← List.reverse_append, List.take_append_drop]
  have hlength : (line.drop start).reverse.length = line.length - start := by
    rw [List.length_reverse, List.length_drop]
  rw [wordStart_eq, hreverse]
  constructor
  · intro hle c hc
    have hprefix : (line.drop start).reverse <+:
        ((line.drop start).reverse ++ (line.take start).reverse).takeWhile fun c => !isGap c := by
      refine List.prefix_of_prefix_length_le (List.prefix_append _ _) (List.takeWhile_prefix _) ?_
      omega
    have hmem := hprefix.subset (List.mem_reverse.mpr hc)
    simpa using List.all_eq_true.mp List.all_takeWhile c hmem
  · intro hnone
    rw [List.takeWhile_append_of_pos (by simpa using hnone), List.length_append]
    omega

theorem isGap_of_isParameterChar {c : Char} (h : isParameterChar c = true) : isGap c = false := by
  refine Bool.eq_false_iff.mpr fun hgap => ?_
  have hends : isBlank c = true ∨ isOperator c = true := by
    simp only [isGap, Bool.or_eq_true, beq_iff_eq] at hgap
    rcases hgap with (rfl | rfl) | rfl <;> decide
  rw [isParameterChar_of_ends hends] at h
  cases h

theorem isGap_of_isDash {c : Char} (h : isDash c = true) : isGap c = false := by
  rcases eq_of_isDash h with rfl | rfl | rfl | rfl <;> rfl

theorem isGap_of_name {before : List Element} {e : Element} {after : List Element}
    (helements : elementsAt line line.length = before ++ e :: after) (hp : e.isParameter = true)
    (hc : e.contains line.length = true) (hend : line.length ≤ nameEnd e) :
    ∀ c ∈ line.drop e.start, isGap c = false := by
  obtain ⟨-, -, -, -, -, t, -, -, -, hstart, hat, -⟩ := exists_token_of_parameter helements hp hc
  obtain ⟨dash, hdash, hdrop⟩ := hat.dash
  have hnone : line.drop (t.start + 1 + e.text.length) = [] := by
    rw [← hstart]
    exact List.drop_of_length_le hend
  rw [hstart, hdrop, hnone, List.append_nil]
  exact List.forall_mem_cons.mpr ⟨isGap_of_isDash hdash, fun c hc =>
    isGap_of_isParameterChar (hat.chars c hc)⟩

theorem isGap_of_memberName (fuel : Nat) (s : Text) :
    ∀ c ∈ s.take (memberNameLength fuel s), isGap c = false := by
  induction fuel generalizing s with
  | zero => simp [memberNameLength]
  | succ fuel ih =>
    have hword (s : Text) : ∀ c ∈ s.take ((s.takeWhile Text.isWord).length +
        memberNameLength fuel (s.drop (s.takeWhile Text.isWord).length)), isGap c = false := by
      intro c hc
      rw [List.take_add, ← List.prefix_iff_eq_take.mp (List.takeWhile_prefix Text.isWord)] at hc
      rcases List.mem_append.mp hc with hc | hc
      · have hchar := List.all_eq_true.mp List.all_takeWhile c hc
        exact isGap_of_isParameterChar (Owner.isParameterChar_of_isWord hchar)
      · exact ih _ c hc
    unfold memberNameLength
    dsimp only
    split
    · rename_i rest
      rw [if_neg (by simp), Nat.add_assoc, Nat.add_comm 2, List.take_succ_cons,
        List.take_succ_cons]
      exact List.forall_mem_cons.mpr ⟨rfl, List.forall_mem_cons.mpr ⟨rfl, hword rest⟩⟩
    · rename_i rest
      rw [if_neg (by simp), Nat.add_assoc, Nat.add_comm 1, List.take_succ_cons]
      exact List.forall_mem_cons.mpr ⟨rfl, hword rest⟩
    · simp

theorem isGap_of_parameter {t : Token} (h : t ∈ Token.ofText line) (hp : t.kind = .parameter)
    (hinline : t.inline = none) : ∀ c ∈ t.text, isGap c = false := by
  obtain ⟨dash, back, -, ht⟩ := Token.exists_scan_of_mem h
  have hkind : (Lexeme.scan dash back).kind = .parameter := by
    rw [ht] at hp
    exact hp
  obtain ⟨hscan, hdash, -⟩ := Lexeme.scan_eq_parameter hkind
  have hname : ∀ c ∈ dash :: back.takeWhile isParameterChar, isGap c = false :=
    List.forall_mem_cons.mpr ⟨isGap_of_isDash hdash, fun c hc =>
      isGap_of_isParameterChar (List.all_eq_true.mp List.all_takeWhile c hc)⟩
  have htext : t.text = (Lexeme.parameter dash back).raw := by
    rw [ht, hscan]
    rfl
  have hnone : (Lexeme.parameter dash back).inline = none := by
    rw [ht, hscan] at hinline
    exact hinline
  rw [htext]
  revert hnone
  fun_cases Lexeme.parameter dash back with
  | case1 | case3 => exact fun _ => hname
  | case2 name rest more hmore htwo w =>
    intro hnone
    have hempty : w.raw = [] := by simpa using hnone
    rw [hempty]
    exact List.forall_mem_append.mpr ⟨hname, by simp [isGap]⟩

theorem isGap_of_pair {before : List Element} {previous e : Element} {length : Nat}
    (helements : elementsAt line line.length = before ++ [previous, e])
    (htouching : touchingName? previous e = some length) (hend : line.length ≤ e.start + length) :
    ∀ c ∈ line.drop previous.start, isGap c = false := by
  obtain ⟨front, t, u, hpair, -⟩ := exists_pair_of_touching helements htouching hend
  obtain ⟨htouch, hname⟩ := Option.ite_none_right_eq_some.mp htouching
  simp only [Bool.and_eq_true, Bool.not_eq_true', beq_iff_eq, Option.isNone_iff_eq_none] at htouch
  obtain ⟨⟨-, htouch⟩, hinline⟩ := htouch
  obtain rfl := hpair.name
  have hslices := (tiling_scanAll line).slice_eq
  have ht : t ∈ Token.ofText line := by simp [hpair.tokens]
  have hu : u ∈ Token.ofText line := by simp [hpair.tokens]
  have hustop : u.stop = u.start + u.text.length := rfl
  have hestart : t.stop = e.start := htouch
  -- the line ends with the two tokens
  have hdrop : line.drop t.start = t.text ++ u.text := by
    have hlast : line.drop t.stop = u.text := by
      rw [← hslices u hu, Text.slice, hpair.ends, List.take_length, hpair.touches]
    have hle : t.start ≤ (line.take t.stop).length := by
      have := (tiling_scanAll line).bounds t ht
      rw [List.length_take]
      omega
    rw [← hlast, ← hslices t ht, Text.slice, ← List.drop_append_of_le_length hle,
      List.take_append_drop]
  obtain ⟨first, hfirst, hle⟩ := exists_first_of_memberName? hname
  obtain rfl := Option.some.inj (hpair.word.symm.trans hfirst)
  have hlength : u.text.length = length := by
    have := hpair.ends
    have := hpair.touches
    omega
  have hword : ∀ c ∈ u.text, isGap c = false := by
    have hraw : e.raw.take length = u.text := by
      obtain ⟨others, hothers⟩ := List.head?_eq_some_iff.mp hpair.word
      rw [Element.raw, hothers, List.map_cons, Text.join_cons, ← hlength, List.take_left]
    have hmember : memberNameLength e.raw.length e.raw = length := by
      revert hname
      unfold memberName?
      split
      · rintro ⟨⟩
      · rename_i n hn
        exact fun h => hn.trans (Option.some.inj h)
    rw [← hraw, ← hmember]
    exact isGap_of_memberName e.raw.length e.raw
  rw [show (Element.parameter t t.stop).start = t.start from rfl, hdrop]
  exact List.forall_mem_append.mpr ⟨isGap_of_parameter ht hpair.kind hinline, hword⟩

/-- The names that are offered at the end of a line, and the members, replace a part of its last
word. -/
theorem isGap_of_offered (hx : x ∈ (complete context line line.length).candidates)
    (hcategory : x.category = .parameterName ∨ x.category = .attachedMember) :
    ∀ c ∈ line.drop (complete context line line.length).start, isGap c = false := by
  rcases hcategory with hcategory | hcategory
  · have heq : complete context line line.length = completeAt context line line.length := by
      rw [complete, Int.toNat_natCast, Nat.min_self]
    rw [heq] at hx ⊢
    obtain ⟨before, e, after, -, helements, -, hp, hc, -, hend, hstart, -⟩ :=
      exists_parameter_of_offered hx hcategory
    rw [hstart]
    exact isGap_of_name helements hp hc hend
  · obtain ⟨before, previous, e, length, helements, htouching, hend, -, hstart⟩ :=
      exists_pair_of_offered hx hcategory
    rw [hstart]
    exact isGap_of_pair helements htouching hend

theorem take_append_slice_iff {first start : Nat} (hfirst : first ≤ line.length)
    (hstart : start ≤ line.length) :
    line.take first ++ Text.slice line first start = line.take start ↔ first ≤ start := by
  constructor
  · intro h
    have hlength := congrArg List.length h
    simp only [Text.slice, List.length_append, List.length_drop, List.length_take] at hlength
    omega
  · intro h
    have htake : line.take first = (line.take start).take first := by
      rw [List.take_take, Nat.min_eq_left h]
    rw [Text.slice, htake, List.take_append_drop]

/-- There is one suggestion for each candidate. In the place of the last word it makes the line that
the candidate makes just when no gap is in what the candidate replaces. For names and members that
is always so. -/
theorem suggest_texts (context : Context σ) (line : Text) :
    let result := complete context line line.length
    (suggest context line).length = result.candidates.length ∧
      ∀ (i : Nat) (x : Candidate) (s : Text), result.candidates[i]? = some x →
        (suggest context line)[i]? = some s →
        (line.take (wordStart line) ++ s = line.take result.start ++ x.insertion ↔
          ∀ c ∈ line.drop result.start, isGap c = false) ∧
        (x.category = .parameterName ∨ x.category = .attachedMember →
          line.take (wordStart line) ++ s = line.take result.start ++ x.insertion) := by
  intro result
  have hsuggest : suggest context line = result.candidates.map fun x =>
      Text.slice line (wordStart line) result.start ++ x.insertion := by
    simp only [suggest, texts, List.map_map, Function.comp_def, result]
  have hspans := spans_complete context line line.length
  rw [Int.toNat_natCast, Nat.min_self] at hspans
  have hstart : result.start ≤ line.length := hspans.start_le
  refine ⟨by rw [hsuggest, List.length_map], fun i x s hx hs => ?_⟩
  rw [hsuggest, List.getElem?_map, hx] at hs
  obtain rfl := Option.some.inj hs
  have hiff : line.take (wordStart line) ++ (Text.slice line (wordStart line) result.start ++
        x.insertion) = line.take result.start ++ x.insertion ↔
      ∀ c ∈ line.drop result.start, isGap c = false := by
    rw [← wordStart_le_iff hstart, ← List.append_assoc, List.append_left_inj]
    exact take_append_slice_iff (Nat.sub_le _ _) hstart
  exact ⟨hiff, fun hcategory =>
    hiff.mpr (isGap_of_offered (List.mem_of_getElem? hx) hcategory)⟩

/-- In a list only the last part is replaced, and the suggestion begins with those in front. -/
theorem suggest_texts_list :
    let line := "Cmd -P x y,v".toList
    let result := complete supplyingContext line line.length
    suggest supplyingContext line = ["y,'v w'".toList] ∧
      line.take (wordStart line) ++ "y,'v w'".toList =
        line.take result.start ++ "'v w'".toList := by
  intro line result
  have hsuggest : suggest supplyingContext line = ["y,'v w'".toList] := by decide +kernel
  have hcandidates : result.candidates.map (·.insertion) = ["'v w'".toList] := by decide +kernel
  obtain ⟨-, hall⟩ := suggest_texts supplyingContext line
  obtain ⟨x, hx, hinsertion⟩ : ∃ x, result.candidates[0]? = some x ∧
      x.insertion = "'v w'".toList := by
    have hfirst := congrArg (·[0]?) hcandidates
    rw [List.getElem?_map] at hfirst
    exact Option.map_eq_some_iff.mp hfirst
  have hnone : (line.drop result.start).any isGap = false := by decide +kernel
  refine ⟨hsuggest, hinsertion ▸ (hall 0 x _ hx (by rw [hsuggest]; rfl)).1.mpr fun c hc => ?_⟩
  exact Bool.eq_false_iff.mpr (List.any_eq_false.mp hnone c hc)

/-- A value in quotes is replaced from its quote on, in front of the last word, and the suggestion
for that word is all of it. -/
theorem suggest_texts_quoted :
    let line := "Cmd 'v w".toList
    let result := complete supplyingContext line line.length
    result.candidates.map (·.insertion) = ["'v w'".toList] ∧
      suggest supplyingContext line = ["'v w'".toList] ∧
      line.take result.start ++ "'v w'".toList = "Cmd 'v w'".toList ∧
      line.take (wordStart line) ++ "'v w'".toList = "Cmd 'v 'v w'".toList := by
  decide +kernel

end Completion

end CommandShell
