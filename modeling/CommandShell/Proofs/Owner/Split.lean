import CommandShell.Proofs.Owner.Name

/-!
What is split into an owner, a member and an inline value is the spelling of a member, put together
of just these.
-/

set_option autoImplicit false

namespace CommandShell

namespace Text

theorem find?_singleton_eq_some {c : Char} {s : Text} {i : Nat} (h : find? [c] s = some i) :
    s = s.take i ++ c :: s.drop (i + 1) := by
  induction s generalizing i with
  | nil => cases h
  | cons d s ih =>
    rw [find?] at h
    split at h
    · rename_i hstart
      obtain rfl := Option.some.inj h
      have hd : c = d := by simpa [startsWith, List.isPrefixOf] using hstart
      simp [hd]
    · obtain ⟨j, hj, rfl⟩ := Option.map_eq_some_iff.mp h
      rw [List.take_succ_cons, List.drop_succ_cons, List.cons_append, ← ih hj]

theorem eq_of_cutLast? {c : Char} {s a b : Text} (h : cutLast? [c] s = some (a, b)) :
    s = a ++ c :: b := by
  obtain ⟨⟨after, before⟩, hcut, heq⟩ := Option.map_eq_some_iff.mp h
  obtain ⟨i, hi, hparts⟩ := Option.map_eq_some_iff.mp hcut
  obtain ⟨rfl, rfl⟩ := Prod.mk.inj heq
  obtain ⟨rfl, rfl⟩ := Prod.mk.inj hparts
  have hreverse := congrArg List.reverse (find?_singleton_eq_some hi)
  simpa using hreverse

end Text

namespace Owner

variable {s o m : Text} {inline : Option Text}

theorem memberPart?_eq_some (h : memberPart? s = some (m, inline)) :
    isName m = true ∧ s = m ++ behind inline := by
  unfold memberPart? at h
  split at h
  · cases h
  · rename_i c s
    split at h
    · rename_i hc
      have hname : isName (c :: s.takeWhile Text.isWord) = true := by
        rw [isName, hc, Bool.true_and]
        exact List.all_takeWhile
      have hs := List.takeWhile_append_dropWhile (p := Text.isWord) (l := s)
      dsimp only at h
      split at h
      · rename_i hrest
        obtain ⟨rfl, rfl⟩ := Prod.mk.inj (Option.some.inj h)
        rw [hrest] at hs
        exact ⟨hname, by rw [behind, List.cons_append, hs]⟩
      · rename_i value hrest
        obtain ⟨rfl, rfl⟩ := Prod.mk.inj (Option.some.inj h)
        rw [hrest] at hs
        exact ⟨hname, by rw [behind, List.cons_append, hs]⟩
      · cases h
    · cases h

theorem isPath_front {tail : Text} (h : isPath (o ++ '.' :: tail) = true) : isPath o = true := by
  cases o with
  | nil =>
    simp only [isPath, List.nil_append, Bool.and_eq_true] at h
    exact absurd h.1 (by decide)
  | cons c rest =>
    simp only [isPath, List.cons_append, List.all_append, Bool.and_eq_true] at h ⊢
    exact ⟨h.1, h.2.1⟩

theorem split?_eq_some (h : split? s = some (o, m, inline)) :
    isPath o = true ∧ isName m = true ∧
      ∃ sep ∈ separators, s = o ++ (sep ++ (m ++ behind inline)) := by
  unfold split? at h
  split at h
  · cases h
  · rename_i c s
    split at h
    · rename_i hc
      dsimp only at h
      have hs : c :: s = (c :: s.takeWhile fun d => Text.isWord d || d == '.') ++
          s.dropWhile fun d => Text.isWord d || d == '.' := by
        rw [List.cons_append, List.takeWhile_append_dropWhile]
      have hrun : isPath (c :: s.takeWhile fun d => Text.isWord d || d == '.') = true := by
        rw [isPath, hc, Bool.true_and]
        exact List.all_takeWhile
      rw [hs]
      generalize (c :: s.takeWhile fun d => Text.isWord d || d == '.') = run at h hrun ⊢
      generalize (s.dropWhile fun d => Text.isWord d || d == '.') = rest at h ⊢
      split at h
      · rename_i hdoubled
        obtain ⟨rfl, hrest⟩ := Prod.mk.inj (Option.some.inj h)
        obtain ⟨rfl, rfl⟩ := Prod.mk.inj hrest
        split at hdoubled
        · obtain ⟨hm, rfl⟩ := memberPart?_eq_some hdoubled
          exact ⟨hrun, hm, [':', ':'], by simp [separators], rfl⟩
        · cases hdoubled
      · obtain ⟨⟨owner, tail⟩, hcut, h⟩ := Option.bind_eq_some_iff.mp h
        obtain ⟨⟨member, value⟩, hmember, h⟩ := Option.bind_eq_some_iff.mp h
        obtain ⟨rfl, hrest⟩ := Prod.mk.inj (Option.some.inj h)
        obtain ⟨rfl, rfl⟩ := Prod.mk.inj hrest
        obtain ⟨hm, hpart⟩ := memberPart?_eq_some hmember
        obtain rfl := Text.eq_of_cutLast? hcut
        refine ⟨isPath_front hrun, hm, ['.'], by simp [separators], ?_⟩
        rw [← hpart, List.append_assoc]
        rfl
    · cases h

end Owner

end CommandShell
