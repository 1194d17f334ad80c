import CommandShell.Owner.Merge
import CommandShell.Proofs.Token.Inside

/-!
The full spelling of a member: the name of an owner, which may have points of its own, a separator,
the name of the member and perhaps an inline value. It is split where it was put together, whatever
the number of points; only a value that begins with a colon can move the split.
-/

set_option autoImplicit false

namespace CommandShell

namespace Text

theorem find?_singleton {c : Char} {s : Text} (h : c ∉ s) (t : Text) :
    find? [c] (s ++ c :: t) = some s.length := by
  induction s with
  | nil => simp [find?, startsWith, List.isPrefixOf]
  | cons d s ih =>
    obtain ⟨hne, hs⟩ := not_or.mp (mt List.mem_cons.mpr h)
    rw [List.cons_append, find?, ih hs]
    simp [startsWith, List.isPrefixOf, hne]

theorem cutLast?_append {c : Char} (s : Text) {t : Text} (h : c ∉ t) :
    cutLast? [c] (s ++ c :: t) = some (s, t) := by
  have hreverse : (s ++ c :: t).reverse = t.reverse ++ c :: s.reverse := by simp
  have hfind := find?_singleton (mt List.mem_reverse.mp h) s.reverse
  rw [cutLast?, hreverse, List.reverse_singleton, cut?, hfind, Option.map_some, Option.map_some,
    List.take_left, List.length_singleton, List.drop_append, List.drop_eq_nil_of_le (by simp)]
  simp

end Text

namespace Owner

open Sign

def isName : Text → Bool
  | [] => false
  | c :: rest => isNameStart c && rest.all Text.isWord

def isPath : Text → Bool
  | [] => false
  | c :: rest => isNameStart c && rest.all fun d => Text.isWord d || d == '.'

def separators : List Text := [['.'], [':', ':']]

/-- The part of an owner's name up to its first point. -/
def lead (owner : Text) : Text := owner.takeWhile Text.isWord

def points (owner : Text) : Text := owner.dropWhile Text.isWord

def behind : Option Text → Text
  | none => []
  | some inline => ':' :: inline

section Characters

variable {c : Char}

theorem isAlphabetic_of_isAlpha (h : c.isAlpha = true) : Text.isAlphabetic c = true := by
  have hcase : (c.isUpper || c.isLower) = true := h
  have hle : c.val ≤ 'Z'.val ∨ c.val ≤ 'z'.val := by
    rcases (Bool.or_eq_true ..).mp hcase with hupper | hlower
    · exact .inl (of_decide_eq_true hupper).2
    · exact .inr (of_decide_eq_true ((Bool.and_eq_true ..).mp hlower).2)
  have hlt : c.val < 128 := by
    simp only [UInt32.le_iff_toNat_le, UInt32.lt_iff_toNat_lt] at hle ⊢
    change c.toNat ≤ 90 ∨ c.toNat ≤ 122 at hle
    change c.toNat < 128
    omega
  rw [Text.isAlphabetic, if_pos hlt, h]

theorem startsParameter_of_isNameStart (h : isNameStart c = true) : startsParameter c = true := by
  simp only [isNameStart, Bool.or_eq_true, beq_iff_eq] at h
  rcases h with h | rfl
  · simp [startsParameter, isAlphabetic_of_isAlpha h]
  · rfl

theorem isWord_of_isNameStart (h : isNameStart c = true) : Text.isWord c = true := by
  simp only [isNameStart, Bool.or_eq_true, beq_iff_eq] at h
  rcases h with h | rfl
  · simp [Text.isWord, Text.isAlphanumeric, isAlphabetic_of_isAlpha h]
  · rfl

theorem isParameterChar_of_isWord (h : Text.isWord c = true) : isParameterChar c = true := by
  simp only [Text.isWord, Bool.or_eq_true] at h
  simp only [isParameterChar, Bool.or_eq_true]
  exact .inl (.inl h)

theorem isOrdinary_of_isWord (h : Text.isWord c = true) : IsOrdinary c := by
  refine isOrdinary_of_isReferenceChar ?_
  simp only [Text.isWord, Bool.or_eq_true] at h
  simp only [isReferenceChar, Bool.or_eq_true]
  exact .inl (.inl h)

theorem isWord_point : Text.isWord '.' = false := by decide +kernel

theorem isWord_colon : Text.isWord ':' = false := by decide +kernel

theorem not_isPathChar_colon : (Text.isWord ':' || ':' == '.') = false := by decide +kernel

end Characters

variable {o m sep : Text}

theorem isWord_of_isName (h : isName m = true) : ∀ c ∈ m, Text.isWord c = true := by
  cases m with
  | nil => cases h
  | cons c rest =>
    simp only [isName, Bool.and_eq_true, List.all_eq_true] at h
    exact List.forall_mem_cons.mpr ⟨isWord_of_isNameStart h.1, h.2⟩

theorem isWord_or_point_of_isPath (h : isPath o = true) :
    ∀ c ∈ o, (Text.isWord c || c == '.') = true := by
  cases o with
  | nil => cases h
  | cons c rest =>
    simp only [isPath, Bool.and_eq_true, List.all_eq_true] at h
    exact List.forall_mem_cons.mpr ⟨by simp [isWord_of_isNameStart h.1], h.2⟩

theorem point_notMem (h : isName m = true) : '.' ∉ m := fun hin =>
  absurd (isWord_of_isName h '.' hin) (by simp [isWord_point])

theorem isPath_of_isName (h : isName m = true) : isPath m = true := by
  cases m with
  | nil => cases h
  | cons c rest =>
    simp only [isName, isPath, Bool.and_eq_true, List.all_eq_true] at h ⊢
    exact ⟨h.1, fun d hd => by simp [h.2 d hd]⟩

theorem isPath_extend (ho : isPath o = true) {more : Text}
    (h : ∀ c ∈ more, (Text.isWord c || c == '.') = true) : isPath (o ++ more) = true := by
  cases o with
  | nil => cases ho
  | cons c rest =>
    simp only [isPath, List.cons_append, Bool.and_eq_true, List.all_append] at ho ⊢
    exact ⟨ho.1, ho.2, List.all_eq_true.mpr h⟩

theorem isPath_append (ho : isPath o = true) (hm : isName m = true) :
    isPath (o ++ '.' :: m) = true :=
  isPath_extend ho (List.forall_mem_cons.mpr ⟨rfl, isWord_or_point_of_isPath (isPath_of_isName hm)⟩)

theorem isPath_join {first : Text} {more : List Text}
    (h : ∀ name ∈ first :: more, isName name = true) :
    isPath (Text.join ['.'] (first :: more)) = true := by
  obtain ⟨hfirst, hmore⟩ := List.forall_mem_cons.mp h
  rw [Text.join_cons]
  refine isPath_extend (isPath_of_isName hfirst) fun c hc => ?_
  obtain ⟨name, hname, hc⟩ := List.mem_flatMap.mp hc
  rcases List.mem_cons.mp hc with rfl | hc
  · rfl
  · exact isWord_or_point_of_isPath (isPath_of_isName (hmore name hname)) c hc

theorem takeWhile_word (h : ∀ c ∈ m, Text.isWord c = true) {tail : Text}
    (ht : tail.head?.any Text.isWord = false) :
    (m ++ tail).takeWhile Text.isWord = m ∧ (m ++ tail).dropWhile Text.isWord = tail := by
  rw [List.takeWhile_append_of_pos h, List.dropWhile_append_of_pos h]
  cases tail with
  | nil => simp
  | cons c tail => simp [show Text.isWord c = false from ht]

theorem lead_join {first : Text} {more : List Text} (h : isName first = true) :
    lead (Text.join ['.'] (first :: more)) = first := by
  rw [lead, Text.join_cons]
  refine (takeWhile_word (isWord_of_isName h) ?_).1
  cases more with
  | nil => rfl
  | cons name more => exact isWord_point

theorem lead_append_points (o : Text) : lead o ++ points o = o :=
  List.takeWhile_append_dropWhile

theorem isName_lead (h : isPath o = true) : isName (lead o) = true := by
  cases o with
  | nil => cases h
  | cons c rest =>
    simp only [isPath, Bool.and_eq_true] at h
    rw [lead, List.takeWhile_cons_of_pos (isWord_of_isNameStart h.1), isName, h.1, Bool.true_and]
    exact List.all_takeWhile

theorem points_cases (h : isPath o = true) : points o = [] ∨ ∃ rest, points o = '.' :: rest := by
  cases hp : points o with
  | nil => exact .inl rfl
  | cons c rest =>
    refine .inr ⟨rest, ?_⟩
    have hin : c ∈ o := by
      rw [← lead_append_points o, hp]
      simp
    have hc : Text.isWord c = false := by
      have hhead := List.head?_dropWhile_not Text.isWord o
      rw [← points, hp] at hhead
      simpa using hhead
    have hpoint := isWord_or_point_of_isPath h c hin
    rw [hc, Bool.false_or, beq_iff_eq] at hpoint
    rw [hpoint]

theorem isOrdinary_of_mem (ho : isPath o = true) (hsep : sep ∈ separators) (hm : isName m = true) :
    ∀ c ∈ o ++ (sep ++ m), IsOrdinary c := by
  have hpoint : IsOrdinary '.' := ⟨rfl, rfl, rfl, rfl, rfl, rfl⟩
  have hcolon : IsOrdinary ':' := ⟨rfl, rfl, rfl, rfl, rfl, rfl⟩
  intro c hc
  rcases List.mem_append.mp hc with hc | hc
  · have := isWord_or_point_of_isPath ho c hc
    rcases Bool.or_eq_true_iff.mp this with hword | hword
    · exact isOrdinary_of_isWord hword
    · exact beq_iff_eq.mp hword ▸ hpoint
  · rcases List.mem_append.mp hc with hc | hc
    · simp only [separators, List.mem_cons, List.not_mem_nil, or_false] at hsep
      rcases hsep with rfl | rfl <;> simp only [List.mem_cons, List.not_mem_nil, or_false] at hc
      · exact hc ▸ hpoint
      · rcases hc with rfl | rfl <;> exact hcolon
    · exact isOrdinary_of_isWord (isWord_of_isName hm c hc)

theorem memberPart?_behind (h : isName m = true) (inline : Option Text) :
    memberPart? (m ++ behind inline) = some (m, inline) := by
  have htail : (behind inline).head?.any Text.isWord = false := by
    cases inline with
    | none => rfl
    | some inline => exact isWord_colon
  cases m with
  | nil => cases h
  | cons c rest =>
    have hword := isWord_of_isName h
    obtain ⟨htake, hdrop⟩ := takeWhile_word (fun d hd => hword d (by simp [hd])) htail (m := rest)
    simp only [isName, Bool.and_eq_true] at h
    rw [List.cons_append, memberPart?, if_pos h.1, htake, hdrop]
    cases inline <;> rfl

def doubled? (tail : Text) : Option (Text × Option Text) :=
  match tail with
  | ':' :: ':' :: more => memberPart? more
  | _ => none

theorem split?_run (ho : isPath o = true) (tail : Text)
    (ht : tail.head?.any (fun d => Text.isWord d || d == '.') = false) :
    split? (o ++ tail) =
      match doubled? tail with
      | some (member, inline) => some (o, member, inline)
      | none => (Text.cutLast? ['.'] o).bind fun (owner, last) =>
        (memberPart? (last ++ tail)).bind fun (member, inline) => some (owner, member, inline) := by
  cases o with
  | nil => cases ho
  | cons c rest =>
    simp only [isPath, Bool.and_eq_true, List.all_eq_true] at ho
    have hrun : (rest ++ tail).takeWhile (fun d => Text.isWord d || d == '.') = rest ∧
        (rest ++ tail).dropWhile (fun d => Text.isWord d || d == '.') = tail := by
      rw [List.takeWhile_append_of_pos ho.2, List.dropWhile_append_of_pos ho.2]
      cases tail with
      | nil => simp
      | cons d tail => simp [show (Text.isWord d || d == '.') = false from ht]
    simp only [List.cons_append, split?, if_pos ho.1, hrun, doubled?]
    rfl

/-- Owner, member and inline value are found again. Behind a point the inline value must not begin
with a colon and a name: with the colon in front of it that makes the separator. -/
theorem split?_append (ho : isPath o = true) (hsep : sep ∈ separators) (hm : isName m = true)
    (inline : Option Text) (hd : sep = ['.'] → doubled? (behind inline) = none) :
    split? (o ++ (sep ++ (m ++ behind inline))) = some (o, m, inline) := by
  simp only [separators, List.mem_cons, List.not_mem_nil, or_false] at hsep
  rcases hsep with rfl | rfl
  · have htail : (behind inline).head?.any (fun d => Text.isWord d || d == '.') = false := by
      cases inline with
      | none => rfl
      | some inline => exact not_isPathChar_colon
    have hsplit := split?_run (isPath_append ho hm) (behind inline) htail
    rw [hd rfl, Text.cutLast?_append o (point_notMem hm)] at hsplit
    simpa [memberPart?_behind hm inline] using hsplit
  · have hsplit := split?_run ho (':' :: ':' :: (m ++ behind inline)) not_isPathChar_colon
    rw [doubled?, memberPart?_behind hm inline] at hsplit
    exact hsplit

/-- Before a colon and a name the owner is all in front of the double colon. -/
theorem split?_doubled (ho : isPath o = true) (hm : isName m = true) {value name : Text}
    {inline : Option Text} (hv : doubled? (':' :: value) = some (name, inline)) :
    split? (o ++ '.' :: (m ++ ':' :: value)) = some (o ++ '.' :: m, name, inline) := by
  have hsplit := split?_run (isPath_append ho hm) (':' :: value) not_isPathChar_colon
  rw [hv] at hsplit
  simpa using hsplit

end Owner

end CommandShell
