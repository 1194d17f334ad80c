import CommandShell.Proofs.Element.Parts
import CommandShell.Proofs.Owner.Split
import CommandShell.Proofs.Token.Touching

/-!
Where names stand in a text: the name of a parameter behind its dash, and the name of a member over
the two elements that it is merged of. Both end in the last element that they go to.
-/

set_option autoImplicit false

namespace CommandShell

open Sign

theorem Text.slice_of_prefix {s part : Text} {start : Nat} (h : part <+: s.drop start) :
    slice s start (start + part.length) = part := by
  obtain ⟨rest, hrest⟩ := h
  rw [slice, List.drop_take, Nat.add_sub_cancel_left, ← hrest, List.take_left]

namespace Token

variable {s : Text} {t u : Token}

theorem prefix_of_mem (h : t ∈ ofText s) : t.text <+: s.drop t.start := by
  have hslice := (tiling_scanAll s).slice_eq t h
  rw [Text.slice, List.drop_take] at hslice
  exact hslice ▸ List.take_prefix _ _

theorem kind_of_head {c : Char} {rest : Text} (h : t ∈ ofText s) (htext : t.text = c :: rest)
    (hc : IsOrdinary c) (hdollar : c ≠ '$') (hdash : isDash c = false) :
    t.kind = .bare ∨ t.kind = .number := by
  obtain ⟨p, hp, rfl⟩ := List.mem_map.mp h
  obtain ⟨d, more, hblank, hscan⟩ := Lexeme.exists_scan_of_mem hp
  have hraw : (Lexeme.scan d more).raw = c :: rest := hscan ▸ htext
  rw [Lexeme.scan_raw_eq_cons hblank] at hraw
  obtain rfl := (List.cons.inj hraw).1
  have hword : p.2 = Lexeme.word (d :: more) := by
    rw [hscan]
    simp [Lexeme.scan, hc.operator, hc.single, hc.double, hdollar, hdash]
  have hkind := Lexeme.word_kind (d :: more)
  rwa [← hword] at hkind

theorem exists_text_of_parameter (h : t ∈ ofText s) (hk : t.kind = .parameter) :
    ∃ dash more, t.text = dash :: t.value ++ more ∧ ∀ c ∈ t.value, isParameterChar c = true := by
  obtain ⟨p, hp, rfl⟩ := List.mem_map.mp h
  obtain ⟨c, rest, -, hscan⟩ := Lexeme.exists_scan_of_mem hp
  have hkind : (Lexeme.scan c rest).kind = .parameter := hscan ▸ hk
  have hname := isParameterChar_of_mem (Lexeme.isParameterName_of_parameter hkind)
  have hraw : ∃ more, (Lexeme.scan c rest).raw = c :: (Lexeme.scan c rest).value ++ more := by
    rw [(Lexeme.scan_eq_parameter hkind).1]
    fun_cases Lexeme.parameter c rest with
    | case1 | case3 => exact ⟨[], (List.append_nil _).symm⟩
    | case2 => exact ⟨_, rfl⟩
  obtain ⟨more, hmore⟩ := hraw
  rw [← hscan] at hmore hname
  exact ⟨c, more, hmore, hname⟩

end Token

namespace Owner

variable {o m sep typed raw : Text} {inline : Option Text}

theorem exists_part (htyped : ∀ c ∈ typed, isParameterChar c = true) (hsep : sep ∈ separators)
    (h : typed ++ raw = o ++ (sep ++ (m ++ behind inline))) :
    ∃ part, part ≠ [] ∧ o ++ (sep ++ m) = typed ++ part ∧ raw = part ++ behind inline := by
  have hout : ¬ sep ⊆ typed := by
    intro hsub
    simp only [separators, List.mem_cons, List.not_mem_nil, or_false] at hsep
    rcases hsep with rfl | rfl
    · exact absurd (htyped '.' (hsub (by simp))) (by decide +kernel)
    · exact absurd (htyped ':' (hsub (by simp))) (by decide +kernel)
  have hwhole : typed ++ raw = (o ++ (sep ++ m)) ++ behind inline := by simp [h]
  rcases List.append_eq_append_iff.mp hwhole with ⟨part, hname, hraw⟩ | ⟨more, hname, -⟩
  · refine ⟨part, ?_, hname, hraw⟩
    rintro rfl
    rw [List.append_nil] at hname
    exact hout fun c hc => hname ▸ by simp [hc]
  · exact absurd (fun c hc => by rw [hname]; simp [hc]) hout

theorem exists_split_of_merge {types : Option TypeRegistry} {e : Element}
    {next value : Option Element} {a : AttachedMatch} {noted : List Diagnostic}
    (h : merge types e next value = (some a, noted)) :
    ∃ adjacent, next = some adjacent ∧ adjacent.isParameter = false ∧ adjacent.start = e.stop ∧
      ∃ o m inline, split? (e.text ++ adjacent.raw) = some (o, m, inline) := by
  unfold merge at h
  split at h
  · rename_i types adjacent
    split at h
    · cases h
    · rename_i hapart
      simp only [Bool.or_eq_true, not_or, Bool.not_eq_true, bne_eq_false_iff_eq] at hapart
      split at h
      · cases h
      · rename_i o m inline hsplit
        exact ⟨adjacent, rfl, hapart.1.1, hapart.1.2, o, m, inline, hsplit⟩
  · cases h

theorem not_sign_of_mem (ho : isPath o = true) (hsep : sep ∈ separators) (hm : isName m = true) :
    ∀ c ∈ o ++ (sep ++ m), c ≠ '$' ∧ isDash c = false := by
  have hsign (c : Char) (h : (Text.isWord c || c == '.' || c == ':') = true) :
      c ≠ '$' ∧ isDash c = false := by
    constructor
    · rintro rfl
      exact absurd h (by decide +kernel)
    · refine Bool.eq_false_iff.mpr fun hdash => ?_
      rcases eq_of_isDash hdash with rfl | rfl | rfl | rfl <;> exact absurd h (by decide +kernel)
  refine fun c hc => hsign c ?_
  rcases List.mem_append.mp hc with hc | hc
  · rw [isWord_or_point_of_isPath ho c hc, Bool.true_or]
  · rcases List.mem_append.mp hc with hc | hc
    · simp only [separators, List.mem_cons, List.not_mem_nil, or_false] at hsep
      rcases hsep with rfl | rfl <;> simp at hc <;> simp [hc]
    · rw [isWord_of_isName hm c hc, Bool.true_or, Bool.true_or]

end Owner

namespace Element

variable {text : Text} {ts : List Token} {e adjacent f : Element} {o m sep : Text}
  {inline : Option Text}

theorem exists_token_of_isParameter (h : e ∈ ofTokens ts) (hp : e.isParameter = true) :
    ∃ t ∈ ts, t.kind = .parameter ∧ e = .parameter t t.stop := by
  have hclosed := closed_of_isParameter h hp
  have hparts := (parts_of_mem h).2
  cases e with
  | value => cases hp
  | parameter t stop =>
    obtain ⟨hin, hkind⟩ := hparts t (List.mem_singleton_self t)
    rw [if_pos hp] at hkind
    exact ⟨t, hin, hkind, by rw [hclosed t rfl]; rfl⟩

theorem exists_token_of_value {n : Nat} (hlaid : Token.Laid n ts) (h : e ∈ ofTokens ts)
    (hv : e.isParameter = false) :
    ∃ u ∈ ts, u.kind ≠ .operator ∧ e.start = u.start ∧ u.stop ≤ e.stop ∧
      ∃ more, e.raw = u.text ++ more ∧ ∀ c ∈ more.head?, c = ',' := by
  obtain ⟨u, hu, hstart⟩ := ofTokens_first h
  obtain ⟨parts, hparts⟩ := List.head?_eq_some_iff.mp hu
  have hin : u ∈ e.parts := hparts ▸ List.mem_cons_self
  obtain ⟨huts, hkind⟩ := (parts_of_mem h).2 u hin
  rw [if_neg (by simp [hv])] at hkind
  refine ⟨u, huts, (isOperand_of_continuesList hkind).1, hstart,
    ((ofTokens_within hlaid e h).parts u hin).2.2,
    (parts.map (·.text)).flatMap ([','] ++ ·), ?_, ?_⟩
  · rw [raw, hparts, List.map_cons, Text.join_cons]
  · cases parts <;> simp

theorem own_name (hts : ts.Sublist (Token.ofText text)) (h : e ∈ ofTokens ts)
    (hp : e.isParameter = true) :
    e.text <+: text.drop (e.start + 1) ∧ e.start + 1 + e.text.length ≤ e.stop := by
  have hlaid := (Token.laid_scanAll text).sublist hts
  refine ⟨?_, (ofTokens_within hlaid e h).name_le hp⟩
  obtain ⟨t, ht, hkind, rfl⟩ := exists_token_of_isParameter h hp
  obtain ⟨dash, more, htext, -⟩ := Token.exists_text_of_parameter (hts.subset ht) hkind
  obtain ⟨rest, hrest⟩ := Token.prefix_of_mem (hts.subset ht)
  refine ⟨more ++ rest, ?_⟩
  rw [text_parameter, start, ← List.drop_drop, ← hrest, htext]
  simp

/-- The name of a member stands behind the dash as well. It ends in a word of the second element. -/
theorem member_name (hts : ts.Sublist (Token.ofText text)) (he : e ∈ ofTokens ts)
    (hp : e.isParameter = true) (hadjacent : adjacent ∈ ofTokens ts)
    (hv : adjacent.isParameter = false) (htouch : adjacent.start = e.stop)
    (ho : Owner.isPath o = true) (hsep : sep ∈ Owner.separators) (hm : Owner.isName m = true)
    (hspelled : e.text ++ adjacent.raw = o ++ (sep ++ (m ++ Owner.behind inline))) :
    o ++ (sep ++ m) <+: text.drop (e.start + 1) ∧
      ∃ u ∈ Token.ofText text, (u.kind = .bare ∨ u.kind = .number) ∧
        e.start + 1 + (o ++ (sep ++ m)).length ≤ u.stop ∧ u.stop ≤ adjacent.stop := by
  have hlaid := (Token.laid_scanAll text).sublist hts
  obtain ⟨t, ht, hkind, rfl⟩ := exists_token_of_isParameter he hp
  obtain ⟨u, hu, hoperand, hstart, hstop, more, hraw, hmore⟩ :=
    exists_token_of_value hlaid hadjacent hv
  replace ht := hts.subset ht
  replace hu := hts.subset hu
  have htouched : u.start = t.stop := hstart.symm.trans htouch
  obtain ⟨-, -, -, hname⟩ := Token.exists_text_of_parameter ht hkind
  obtain ⟨dash, htext⟩ := Token.text_of_touched_parameter ht hu hkind htouched hoperand
  rw [text_parameter] at hspelled
  obtain ⟨part, hne, hwhole, hpart⟩ := Owner.exists_part hname hsep hspelled
  have hordinary := Owner.isOrdinary_of_mem ho hsep hm
  have hsign := Owner.not_sign_of_mem ho hsep hm
  rw [hwhole] at hordinary hsign ⊢
  -- no comma is in the name, so that it does not reach beyond the first token
  have hfront : part <+: u.text := by
    rw [hraw] at hpart
    rcases List.append_eq_append_iff.mp hpart with ⟨beyond, hbeyond, hrest⟩ | ⟨left, hleft, -⟩
    · cases beyond with
      | nil => exact ⟨[], by simpa using hbeyond⟩
      | cons c beyond =>
        obtain rfl := hmore c (by rw [hrest]; rfl)
        have hcomma := hordinary ',' (by simp [hbeyond])
        exact absurd hcomma.operator (by decide)
    · exact ⟨left, hleft.symm⟩
  obtain ⟨c, part, rfl⟩ := List.exists_cons_of_ne_nil hne
  obtain ⟨left, hleft⟩ := hfront
  have hc : c ∈ t.value ++ c :: part := by simp
  have hlength : u.text.length = (c :: part).length + left.length := by
    rw [← hleft, List.length_append]
  have htstop : t.stop = t.start + (t.value.length + 1) := by rw [Token.stop, htext]; rfl
  refine ⟨?_, u, hu, Token.kind_of_head hu hleft.symm (hordinary c hc) (hsign c hc).1
    (hsign c hc).2, ?_, hstop⟩
  · obtain ⟨rest, hrest⟩ := Token.prefix_of_mem ht
    obtain ⟨after, hafter⟩ := Token.prefix_of_mem hu
    have hdrop : rest = text.drop u.start := by
      rw [htouched, htstop, ← List.drop_drop, ← hrest, htext]
      simp
    refine ⟨left ++ after, ?_⟩
    rw [start, ← List.drop_drop, ← hrest, hdrop, ← hafter, ← hleft, htext]
    simp
  · have hustop : u.stop = u.start + u.text.length := rfl
    rw [start, List.length_append]
    omega

theorem stop_le_start {i j : Nat} (hts : ts.Sublist (Token.ofText text)) (hij : i < j)
    (he : (ofTokens ts)[i]? = some e) (hf : (ofTokens ts)[j]? = some f) : e.stop ≤ f.start := by
  have hordered := ofTokens_ordered ((Token.laid_scanAll text).sublist hts)
  obtain ⟨hi, rfl⟩ := List.getElem?_eq_some_iff.mp he
  obtain ⟨hj, rfl⟩ := List.getElem?_eq_some_iff.mp hf
  exact List.pairwise_iff_getElem.mp hordered i j hi hj hij

theorem stop_lt_start {u : Token} (hts : ts.Sublist (Token.ofText text))
    (hu : u ∈ Token.ofText text) (hkind : u.kind = .bare ∨ u.kind = .number)
    (hf : f ∈ ofTokens ts) (hle : u.stop ≤ f.start) : u.stop < f.start := by
  obtain ⟨v, hv, hstart⟩ := ofTokens_first hf
  obtain ⟨hin, hoperand⟩ := (parts_of_mem hf).2 v (List.mem_of_head? hv)
  refine Nat.lt_of_le_of_ne hle fun hsame => ?_
  have hoperator := Token.operator_of_touching_word hu (hts.subset hin) hkind
    (hstart.symm.trans hsame.symm)
  split at hoperand
  · rw [hoperator] at hoperand
    cases hoperand
  · exact (isOperand_of_continuesList hoperand).1 hoperator

end Element

end CommandShell
