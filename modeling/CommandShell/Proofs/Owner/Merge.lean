import CommandShell.Layout.Owners
import CommandShell.Proofs.Binding.Spelling
import CommandShell.Proofs.Datum.ValueType
import CommandShell.Proofs.Token.Member

/-!
A member spelled in full, and its value behind a blank or behind a colon. Behind a blank the value
is the text of an element; behind a colon it is what was typed, so quotes that are needed there stay
part of it.
-/

set_option autoImplicit false

namespace CommandShell

namespace Owner

variable {types : TypeRegistry} {owner : OwnerType} {member : Attachable} {o m sep : Text}
  {inline : Option Text}

theorem findMember_eq {name : Text} (h : (findMember owner name none).1 = some member)
    (offset : Option Nat) : findMember owner name offset = (some member, []) := by
  unfold findMember at h ⊢
  split
  · simp_all
  · simp_all
  · rename_i h₁ h₀
    split at h
    · exact absurd ‹_› (h₁ _)
    · exact absurd ‹_› h₀
    · cases h

theorem findMember_of_named {name : Text} (h : owner.named name = [member]) (offset : Option Nat) :
    findMember owner name offset = (some member, []) := by
  rw [findMember, h]

theorem convert_offset (owner : OwnerType) (member : Attachable) (raw : Option Text) (i j : Nat) :
    (convert owner member raw i).1 = (convert owner member raw j).1 := by
  unfold convert
  split
  · rfl
  · rfl
  · split <;> rfl

/-- All that can be wrong with a merged value is that it does not convert to the type of its
member. -/
theorem convert_noted (owner : OwnerType) (member : Attachable) (raw : Option Text)
    (offset : Nat) : (convert owner member raw offset).2 = [] ∨
      ∃ v raised, raw = some v ∧ member.type.coerceText v = .error raised ∧
        (convert owner member raw offset).2 =
          [⟨unconverted owner member v raised, some offset⟩] := by
  fun_cases convert owner member raw offset with
  | case1 | case2 | case3 => exact .inl rfl
  | case4 v _ raised hraised => exact .inr ⟨v, raised, rfl, hraised, rfl⟩

theorem unconverted_fault (owner : OwnerType) (member : Attachable) (v : Text) {cause : Fault}
    (h : cause.kind.isMisfit = true) : unconverted owner member v (.fault cause) =
      .coercionFailure v owner.name member.name cause := by
  rw [unconverted, Raised.kind_fault, if_pos (Bool.or_eq_true_iff.mpr (.inl h))]
  rfl

/-- A parameter and a value right behind it, typed as one text. -/
structure Touches (e adjacent : Element) (typed : Text) : Prop where
  parameter : e.isParameter = true
  plain : e.inline = none
  value : adjacent.isParameter = false
  start : adjacent.start = e.stop
  typed : e.text ++ adjacent.raw = typed

def merged (owner : OwnerType) (member : Attachable) (raw : Option Text) (consumed : Bool) :
    AttachedMatch :=
  ⟨owner, member, raw, (convert owner member raw 0).1, consumed⟩

variable {e adjacent : Element} {typed : Text}

theorem Touches.not_apart (h : Touches e adjacent typed) :
    (adjacent.isParameter || adjacent.start != e.stop || e.inline.isSome) = false := by
  simp [h.plain, h.value, h.start]

theorem Touches.merge_eq (h : Touches e adjacent typed)
    (hsplit : split? typed = some (o, m, inline)) (hresolve : types.resolve o = some owner)
    (hmember : (findMember owner m none).1 = some member) {value : Option Element}
    {raw : Option Text} {consumed : Bool} (hraw : rawValue inline value = (raw, consumed)) :
    ∃ offset, merge (some types) e (some adjacent) value =
      (some (merged owner member raw consumed), (convert owner member raw offset).2) := by
  have hfound := findMember_eq hmember (some e.start)
  simp only [merge, h.not_apart, Bool.false_eq_true, if_false, h.typed, hsplit, hresolve, hfound,
    hraw, merged, List.nil_append]
  exact ⟨_, by rw [convert_offset]⟩

theorem Touches.merge_of_unresolved (h : Touches e adjacent typed)
    (hsplit : split? typed = some (o, m, inline)) (hresolve : types.resolve o = none)
    (value : Option Element) : merge (some types) e (some adjacent) value = (none, []) := by
  simp only [merge, h.not_apart, Bool.false_eq_true, if_false, h.typed, hsplit, hresolve]

section Lines

open Binding Quoting Lexeme

theorem isArgument_argument (start : Nat) (v : Text) :
    (Token.ofLexeme (start, argument v [])).IsArgument := argument_kind v []

theorem argument_isParameter (start : Nat) (v : Text) :
    (Element.ofToken (Token.ofLexeme (start, argument v []))).isParameter = false := by
  rw [Element.ofToken_argument (isArgument_argument start v)]
  rfl

theorem argument_text (start : Nat) (v : Text) :
    (Element.ofToken (Token.ofLexeme (start, argument v []))).text = v := by
  rw [Element.ofToken_text]
  exact argument_value v []

theorem touches_of_lexemes (rest : Text) (start : Nat) {l : Lexeme} (tail : Text)
    (hkind : l.kind = .bare ∨ l.kind = .number) (hraw : l.raw = touching o sep m ++ tail) :
    Touches (Element.ofToken (Token.ofLexeme (start, ofName '-' (lead o) rest)))
      (Element.ofToken (Token.ofLexeme (start + (ofName '-' (lead o) rest).raw.length, l)))
      (o ++ (sep ++ (m ++ tail))) := by
  have hargument : Element.ofToken
      (Token.ofLexeme (start + (ofName '-' (lead o) rest).raw.length, l)) = _ :=
    Element.ofToken_argument (hkind.imp_right .inl)
  have hsplit := lead_append_touching o sep (m ++ tail)
  rw [hargument]
  refine ⟨rfl, rfl, rfl, rfl, ?_⟩
  rw [Element.ofToken_text, ← hsplit, touching, Element.raw, Element.parts]
  simp [Token.ofLexeme, ofName, hraw, touching, Text.join_cons]

/-- A line that calls a command with a member spelled in full, and this behind it. -/
def attaching (command o sep m behind : Text) : Text := spelled command o (sep ++ (m ++ behind))

/-- The elements behind the command of such a line: the two of the member, and the value that a
blank separates from them. -/
theorem elements_attaching (ho : isPath o = true) (hsep : sep ∈ separators)
    (hm : isName m = true) (command v : Text) :
    let line := attaching command o sep m (' ' :: quoteIfNeeded v)
    Token.fault? line = none ∧ ∃ command e adjacent value : Element,
      Element.ofTokens (Token.scan line) = [command, e, adjacent, value] ∧
        Touches e adjacent (o ++ (sep ++ m)) ∧ e.text = lead o ∧
        value.isParameter = false ∧ value.text = v := by
  intro line
  have hscan := scan_member ho hsep m (' ' :: quoteIfNeeded v)
  obtain ⟨l, hall, hkind, hraw, hopened, -⟩ := scanAll_touching ho hsep hm
    (dashAt command + (ofName '-' (lead o) (touching o sep m ++ ' ' :: quoteIfNeeded v)).raw.length)
    (' ' :: quoteIfNeeded v)
  have hword : Word.scan none (' ' :: quoteIfNeeded v) = .nothing (' ' :: quoteIfNeeded v) :=
    Word.scan_of_endsWord none rfl
  rw [hword] at hraw hopened hall
  have hquoted := @scanAll_quoteIfNeeded (dashAt command +
    (ofName '-' (lead o) (touching o sep m ++ ' ' :: quoteIfNeeded v)).raw.length +
      (touching o sep m).length + 1) v [] rfl
  simp only [Word.nothing, List.append_nil, scanAll_blank (show Sign.isBlank ' ' = true from rfl),
    scanAll_nil] at hall hquoted
  rw [hquoted] at hall
  obtain ⟨hfault, e, helements⟩ := read_spelled command hscan rfl rfl hall (by
    have hne : (argument v []).kind ≠ .operator :=
      (isArgument_argument 0 v).isOperand.1
    rcases hkind with h | h <;> simp [h, hopened rfl, hne])
  have htouches := touches_of_lexemes (touching o sep m ++ ' ' :: quoteIfNeeded v)
    (dashAt command) [] hkind hraw
  rw [List.append_nil] at htouches
  exact ⟨hfault, e, _, _, _, helements, htouches, Element.ofToken_text _, argument_isParameter _ v,
    argument_text _ v⟩

/-- Behind a colon the value is part of the second element, as it was typed. -/
theorem elements_attaching_inline (ho : isPath o = true) (hsep : sep ∈ separators)
    (hm : isName m = true) (command v : Text) :
    let line := attaching command o sep m (':' :: quoteIfNeeded v)
    Token.fault? line = none ∧ ∃ command e adjacent : Element,
      Element.ofTokens (Token.scan line) = [command, e, adjacent] ∧
        Touches e adjacent (o ++ (sep ++ (m ++ ':' :: quoteIfNeeded v))) := by
  intro line
  have hscan := scan_member ho hsep m (':' :: quoteIfNeeded v)
  obtain ⟨l, hall, hkind, hraw, hopened, -⟩ := scanAll_touching ho hsep hm
    (dashAt command + (ofName '-' (lead o) (touching o sep m ++ ':' :: quoteIfNeeded v)).raw.length)
    (':' :: quoteIfNeeded v)
  have hword : Word.scan none (':' :: quoteIfNeeded v) =
      ⟨':' :: quoteIfNeeded v, ':' :: v, !needsQuoting v, none, []⟩ := by
    rw [Word.scan_cons_ordinary ⟨rfl, rfl, rfl, rfl, rfl, rfl⟩, Word.scan_previous (by simp),
      word_quoteIfNeeded]
    rfl
  rw [hword] at hraw hopened hall
  simp only [scanAll_nil] at hall
  obtain ⟨hfault, e, helements⟩ := read_spelled command hscan rfl rfl hall (by
    rcases hkind with h | h <;> simp [h, hopened rfl])
  exact ⟨hfault, e, _, _, helements, touches_of_lexemes _ _ _ hkind hraw⟩

def firstMerge (types : TypeRegistry) (line : Text) : Option AttachedMatch :=
  match (Element.ofTokens (Token.scan line)).drop 1 with
  | [] => none
  | e :: rest => (merge (some types) e rest.head? rest[1]?).1

variable {v : Text}

theorem firstMerge_apart (ho : isPath o = true) (hsep : sep ∈ separators) (hm : isName m = true)
    (hresolve : types.resolve o = some owner) (hmember : (findMember owner m none).1 = some member)
    (command v : Text) :
    firstMerge types (attaching command o sep m (' ' :: quoteIfNeeded v)) =
      some (merged owner member (some v) true) := by
  obtain ⟨-, _, e, adjacent, value, helements, htouches, -, hvalue, rfl⟩ :=
    elements_attaching ho hsep hm command v
  have hsplit := split?_append ho hsep hm none fun _ => rfl
  rw [behind, List.append_nil] at hsplit
  have hraw : rawValue none (some value) = (some value.text, true) := if_neg (by simp [hvalue])
  obtain ⟨_, hmerge⟩ := htouches.merge_eq hsplit hresolve hmember hraw
  simp only [firstMerge, helements, List.drop_succ_cons, List.drop_zero, List.head?_cons,
    List.getElem?_cons_succ, List.getElem?_cons_zero, hmerge]

theorem firstMerge_inline (ho : isPath o = true) (hsep : sep ∈ separators) (hm : isName m = true)
    (hresolve : types.resolve o = some owner) (hmember : (findMember owner m none).1 = some member)
    (hd : sep = ['.'] → doubled? (':' :: quoteIfNeeded v) = none) (command : Text) :
    firstMerge types (attaching command o sep m (':' :: quoteIfNeeded v)) =
      some (merged owner member (some (quoteIfNeeded v)) false) := by
  obtain ⟨-, _, e, adjacent, helements, htouches⟩ := elements_attaching_inline ho hsep hm command v
  have hsplit := split?_append ho hsep hm (some (quoteIfNeeded v)) hd
  rw [behind] at hsplit
  have hraw : rawValue (some (quoteIfNeeded v)) none = (some (quoteIfNeeded v), false) := by
    obtain ⟨c, rest, hc⟩ := List.exists_cons_of_ne_nil (quoteIfNeeded_ne_nil v)
    rw [hc, rawValue]
  obtain ⟨_, hmerge⟩ := htouches.merge_eq hsplit hresolve hmember hraw
  simp [firstMerge, helements, hmerge]

theorem firstMerge_doubled (ho : isPath o = true) (hm : isName m = true)
    (hd : doubled? (':' :: quoteIfNeeded v) ≠ none)
    (hresolve : types.resolve (o ++ '.' :: m) = none) (command : Text) :
    firstMerge types (attaching command o ['.'] m (':' :: quoteIfNeeded v)) = none := by
  obtain ⟨-, _, e, adjacent, helements, htouches⟩ :=
    elements_attaching_inline ho (List.mem_cons_self : ['.'] ∈ separators) hm command v
  obtain ⟨⟨name, inline⟩, hd⟩ := Option.ne_none_iff_exists'.mp hd
  have hmerge := htouches.merge_of_unresolved (split?_doubled ho hm hd) hresolve none
  simp [firstMerge, helements, hmerge]

/-- The value of a member is the same behind a blank and behind a colon if it needs no quotes.
Quotes that it needs are read behind a blank, and stay part of it behind a colon. -/
theorem merge_spellings (ho : isPath o = true) (hsep : sep ∈ separators) (hm : isName m = true)
    (hresolve : types.resolve o = some owner) (hmember : (findMember owner m none).1 = some member)
    (v command : Text) :
    let apart := attaching command o sep m (' ' :: quoteIfNeeded v)
    let inline := attaching command o sep m (':' :: quoteIfNeeded v)
    Token.scanStrict apart = .ok (Token.scan apart) ∧
    Token.scanStrict inline = .ok (Token.scan inline) ∧
    firstMerge types apart = some (merged owner member (some v) true) ∧
    ((sep = ['.'] → doubled? (':' :: quoteIfNeeded v) = none) → ∃ a,
      firstMerge types inline = some a ∧ a.owner = owner ∧ a.member = member ∧
      a.raw = some (quoteIfNeeded v) ∧ a.consumed = false ∧
      (a.raw = some v ↔ needsQuoting v = false) ∧
      (needsQuoting v = false → a.value = (merged owner member (some v) true).value)) ∧
    (sep = ['.'] → doubled? (':' :: quoteIfNeeded v) ≠ none →
      types.resolve (o ++ '.' :: m) = none → firstMerge types inline = none) := by
  intro apart inline
  refine ⟨Token.scanStrict_eq_ok (elements_attaching ho hsep hm command v).1,
    Token.scanStrict_eq_ok (elements_attaching_inline ho hsep hm command v).1,
    firstMerge_apart ho hsep hm hresolve hmember command v, fun hd => ?_, fun hpoint hd hnone => ?_⟩
  · refine ⟨_, firstMerge_inline ho hsep hm hresolve hmember hd command, rfl, rfl, rfl, rfl, ?_,
      fun hplain => ?_⟩
    · rw [← quoteIfNeeded_eq_self_iff]
      exact Option.some_inj
    · rw [quoteIfNeeded_eq_self_iff.mpr hplain]
      rfl
  · subst hpoint
    exact firstMerge_doubled ho hm hd hnone command

theorem merge_spellings_row :
    let line := attaching "New".toList "Grid".toList ['.'] "Row".toList
    let found := (firstMerge Layout.types (line (' ' :: "5".toList)))
    found.isSome = true ∧ found.map (·.raw) = some (some "5".toList) ∧
      found.map (·.value) = (firstMerge Layout.types (line (':' :: "5".toList))).map (·.value) := by
  intro line found
  obtain ⟨owner, hresolve⟩ := Option.isSome_iff_exists.mp
    (by decide +kernel : (Layout.types.resolve "Grid".toList).isSome = true)
  have hfind : ((Layout.types.resolve "Grid".toList).bind fun owner =>
      (findMember owner "Row".toList none).1).isSome = true := by decide +kernel
  obtain ⟨member, hmember⟩ := Option.isSome_iff_exists.mp hfind
  rw [hresolve, Option.bind_some] at hmember
  have hplain : needsQuoting "5".toList = false := by decide +kernel
  obtain ⟨-, -, hapart, hinline, -⟩ := merge_spellings (by decide +kernel : isPath "Grid".toList)
    (List.mem_cons_self : ['.'] ∈ separators) (by decide +kernel : isName "Row".toList) hresolve
    hmember "5".toList "New".toList
  obtain ⟨a, hfound, -, -, -, -, -, hvalue⟩ := hinline fun _ => by decide +kernel
  rw [quoteIfNeeded_eq_self_iff.mpr hplain] at hapart hfound
  simp only [found, line, hapart, hfound, Option.isSome_some, Option.map_some, hvalue hplain,
    merged, and_self]

/-- A value with a blank needs quotes, and behind a colon it is a text with quotes. -/
theorem merge_quoted :
    let line := attaching "New".toList "ToolTipService".toList ['.'] "ToolTip".toList
    let value := quoteIfNeeded "a b".toList
    ((firstMerge Layout.types (line (' ' :: value))).map fun a => (a.raw, a.value.print)) =
      some (some "a b".toList, .ok "a b".toList) ∧
    ((firstMerge Layout.types (line (':' :: value))).map fun a => (a.raw, a.value.print)) =
      some (some "'a b'".toList, .ok "'a b'".toList) := by
  decide +kernel

end Lines

end Owner

end CommandShell
