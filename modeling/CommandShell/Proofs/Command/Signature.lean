import CommandShell.Command.Signature
import CommandShell.Proofs.Binding.Partition
import CommandShell.Proofs.Entries
import CommandShell.Proofs.Owner.Kind
import CommandShell.Proofs.Text.Pieces

/-!
The parameters that are made of the arguments of a routine: one for each argument of its own, in
order, the places counted through. What tells two arguments apart may be an underscore or the case
of a letter, and their parameters have one name then, under which only the last of them is found.
-/

set_option autoImplicit false

namespace CommandShell

namespace Text

theorem upperChar_ne_nil (c : Char) : upperChar c ≠ [] := by
  have hexpansions : ∀ entry ∈ upperExpansions, entry.2 ≠ [] := by decide +kernel
  rw [upperChar]
  split
  · exact nofun
  · split
    · rename_i several hseveral
      obtain ⟨before, behind, hin, -⟩ := List.lookup_eq_some_iff.mp hseveral
      have hmem : (c.toNat, several) ∈ upperExpansions :=
        hin ▸ List.mem_append_right before (List.mem_cons_self ..)
      exact mt List.map_eq_nil_iff.mp (hexpansions _ hmem)
    · exact nofun

theorem lowerChar_toUpper {c : Char} (hc : c.val < 128) :
    c.toUpper.val < 128 ∧ lowerChar c.toUpper = lowerChar c := by
  have hascii : ∀ n < 128, (Char.ofNat n).toUpper.val < 128 ∧
      lowerChar (Char.ofNat n).toUpper = lowerChar (Char.ofNat n) := by decide +kernel
  have h := hascii c.toNat hc
  rwa [Char.ofNat_toNat] at h

theorem lower_of_ascii {s : Text} (h : ∀ c ∈ s, c.val < 128) : lower s = s.flatMap lowerChar :=
  lowerFrom_of_notMem (fun hsigma => absurd (h _ hsigma) (by decide)) []

end Text

namespace Signature

variable {name : Text} {a : DeclaredArgument} {arguments : List DeclaredArgument}

/-! ## Names -/

theorem capitalized_eq_nil : capitalized name = [] ↔ ∀ c ∈ name, c = '_' := by
  have hword (word : Text) : Text.upper (word.take 1) ++ word.drop 1 = [] ↔ word = [] := by
    cases word with
    | nil => exact iff_of_true rfl rfl
    | cons c word =>
      refine iff_of_false (fun h => Text.upperChar_ne_nil c ?_) nofun
      simpa [Text.upper] using (List.append_eq_nil_iff.mp h).1
  rw [capitalized, List.flatMap_eq_nil_iff]
  simp only [hword]
  rw [← List.flatten_eq_nil_iff, Text.flatten_pieces, List.filter_eq_nil_iff]
  simp

theorem ascii_of_mem_pieces (h : ∀ c ∈ name, c.val < 128) {word : Text}
    (hword : word ∈ Text.pieces (· == '_') name) : ∀ c ∈ word, c.val < 128 := by
  intro c hc
  have hin : c ∈ (Text.pieces (· == '_') name).flatten := List.mem_flatten.mpr ⟨word, hword, hc⟩
  rw [Text.flatten_pieces] at hin
  exact h c (List.mem_of_mem_filter hin)

theorem capital_ascii {word : Text} (h : ∀ c ∈ word, c.val < 128) :
    (∀ c ∈ Text.upper (word.take 1) ++ word.drop 1, c.val < 128) ∧
      (Text.upper (word.take 1) ++ word.drop 1).flatMap Text.lowerChar =
        word.flatMap Text.lowerChar := by
  cases word with
  | nil => exact ⟨nofun, rfl⟩
  | cons c word =>
    obtain ⟨hc, hword⟩ := List.forall_mem_cons.mp h
    obtain ⟨hupper, hlower⟩ := Text.lowerChar_toUpper hc
    have hcapital : Text.upper ((c :: word).take 1) ++ (c :: word).drop 1 = c.toUpper :: word := by
      simp [Text.upper, Text.upperChar, hc]
    rw [hcapital]
    exact ⟨List.forall_mem_cons.mpr ⟨hupper, hword⟩,
      by rw [List.flatMap_cons, hlower, List.flatMap_cons]⟩

theorem lower_capitalized (h : ∀ c ∈ name, c.val < 128) :
    Text.lower (capitalized name) = Text.lower (name.filter (· ≠ '_')) := by
  have hascii : ∀ c ∈ capitalized name, c.val < 128 := by
    intro c hc
    obtain ⟨word, hword, hin⟩ := List.mem_flatMap.mp hc
    exact (capital_ascii (ascii_of_mem_pieces h hword)).1 c hin
  have hflat : (Text.pieces (· == '_') name).flatMap (List.flatMap Text.lowerChar) =
      (name.filter (· ≠ '_')).flatMap Text.lowerChar := by
    have hfilter : (Text.pieces (· == '_') name).flatMap id = name.filter (· ≠ '_') := by
      rw [List.flatMap_id, Text.flatten_pieces]
      exact List.filter_congr fun c _ => by simp [Bool.beq_eq_decide_eq]
    rw [← hfilter, List.flatMap_assoc]
    rfl
  rw [Text.lower_of_ascii hascii, capitalized, List.flatMap_assoc,
    List.flatMap_congr fun word hword => (capital_ascii (ascii_of_mem_pieces h hword)).2, hflat,
    Text.lower_of_ascii fun c hc => h c (List.mem_of_mem_filter hc)]

/-! ## Parameters -/

def isSingle (a : DeclaredArgument) : Bool := !(a.kind = .places || a.kind = .names)

def isPlaced (a : DeclaredArgument) : Bool := isByPlace a && !(a.type = .boolean)

theorem isPlaced_of_isSingle_eq_false (h : isSingle a = false) : isPlaced a = false := by
  simp only [isSingle, Bool.not_eq_false', Bool.or_eq_true, decide_eq_true_eq] at h
  rcases h with hkind | hkind <;> simp [isPlaced, isByPlace, hkind]

section

variable (aliases : Entries Text (List Text)) (help : Entries Text Text)

theorem parametersFrom_of_not_single (position : Nat) (rest : List DeclaredArgument)
    (h : isSingle a = false) :
    parametersFrom aliases help position (a :: rest) =
      parametersFrom aliases help position rest := by
  rw [parametersFrom, if_pos (by simpa only [isSingle, Bool.not_eq_false'] using h)]

theorem parametersFrom_of_single (position : Nat) (rest : List DeclaredArgument)
    (h : isSingle a = true) :
    ∃ p : Parameter, p.key = a.name ∧ p.name = capitalized a.name ∧
      p.isSwitch = decide (a.type = .boolean) ∧
      p.position = (if isPlaced a then some ↑position else none) ∧
      parametersFrom aliases help position (a :: rest) =
        p :: parametersFrom aliases help (if isPlaced a then position + 1 else position) rest := by
  have hkind : ¬ (a.kind = .places || a.kind = .names) = true := by simpa [isSingle] using h
  rw [parametersFrom, if_neg hkind]
  exact ⟨_, rfl, rfl, rfl, rfl, rfl⟩

theorem map_parametersFrom (position : Nat) (arguments : List DeclaredArgument) :
    (parametersFrom aliases help position arguments).map
        (fun p => (p.key, p.name, p.isSwitch, p.position.isSome)) =
      (arguments.filter isSingle).map fun a =>
        (a.name, capitalized a.name, decide (a.type = .boolean), isPlaced a) := by
  induction arguments generalizing position with
  | nil => rfl
  | cons a rest ih =>
    cases hsingle : isSingle a with
    | false =>
      rw [parametersFrom_of_not_single _ _ _ _ hsingle, ih,
        List.filter_cons_of_neg (by simp [hsingle])]
    | true =>
      obtain ⟨p, hkey, hname, hswitch, hposition, hcons⟩ :=
        parametersFrom_of_single aliases help position rest hsingle
      have hplaced : p.position.isSome = isPlaced a := by
        rw [hposition]
        cases isPlaced a <;> rfl
      rw [hcons, List.map_cons, ih, List.filter_cons_of_pos hsingle, List.map_cons, hkey, hname,
        hswitch, hplaced]

theorem positions_parametersFrom (position : Nat) (arguments : List DeclaredArgument) :
    (parametersFrom aliases help position arguments).filterMap (·.position) =
      (List.range' position (arguments.countP isPlaced)).map Int.ofNat := by
  induction arguments generalizing position with
  | nil => rfl
  | cons a rest ih =>
    cases hsingle : isSingle a with
    | false =>
      rw [parametersFrom_of_not_single _ _ _ _ hsingle, ih,
        List.countP_cons_of_neg (by simp [isPlaced_of_isSingle_eq_false hsingle])]
    | true =>
      obtain ⟨p, -, -, -, hposition, hcons⟩ :=
        parametersFrom_of_single aliases help position rest hsingle
      rw [hcons]
      cases hplaced : isPlaced a with
      | false =>
        rw [hplaced] at hposition
        rw [List.filterMap_cons_none hposition, List.countP_cons_of_neg (by simp [hplaced])]
        exact ih position
      | true =>
        rw [hplaced] at hposition
        rw [List.filterMap_cons_some hposition, List.countP_cons_of_pos hplaced, List.range'_succ,
          List.map_cons]
        exact congrArg _ (ih (position + 1))

end

end Signature

/-! ## The working set -/

namespace Binding.Pass

variable {declared : List Parameter}

theorem get?_start (declared : List Parameter) (key : Text) :
    (start declared).available.get? key =
      declared.reverse.find? fun p => Text.lower p.name = key := by
  rw [start, Entries.get?_ofList, ← List.map_reverse, Entries.get?, List.find?_map, Option.map_map]
  exact congrFun Option.map_id _

theorem start_available_eq_iff : (start declared).available.map (·.2) = declared ↔
    (declared.map fun p => Text.lower p.name).Nodup := by
  constructor
  · intro hall
    have hkeyed : (start declared).available = keyed ((start declared).available.map (·.2)) := by
      rw [keyed, List.map_map]
      refine (List.map_id _).symm.trans (List.map_congr_left fun entry hentry => ?_)
      have hin := (Entries.mem_or_mem_of_mem_update hentry).resolve_left List.not_mem_nil
      obtain ⟨p, -, rfl⟩ := List.mem_map.mp hin
      rfl
    have hnodup : ((start declared).available.map (·.1)).Nodup := Entries.nodup_keys_ofList _
    rw [hkeyed, hall, keyed, List.map_map] at hnodup
    exact hnodup
  · intro hn
    rw [start_available hn, keyed_map_snd]

end Binding.Pass

namespace Signature

/-- There is one parameter for each single argument, and those that are placed are counted through.
A parameter has a name unless its argument is called by underscores alone. All of them are in the
working set just when no two are called the same in some case, the later one being there otherwise;
in plain letters this is that no two arguments differ in underscores and case only. -/
theorem parameters_distinct (s : Signature) (aliases : Entries Text (List Text))
    (help : Entries Text Text) :
    let ps := s.parameters aliases help
    let single := s.arguments.filter isSingle
    let available := (Binding.Pass.start ps).available
    ps.map (fun p => (p.key, p.name, p.isSwitch, p.position.isSome)) =
      single.map (fun a =>
        (a.name, capitalized a.name, decide (a.type = .boolean), isPlaced a)) ∧
    ps.filterMap (·.position) = (List.range (single.countP isPlaced)).map Int.ofNat ∧
    (∀ p ∈ ps, p.name = [] ↔ ∀ c ∈ p.key, c = '_') ∧
    (available.map (·.2) = ps ↔ (ps.map fun p => Text.lower p.name).Nodup) ∧
    (∀ name, available.get? (Text.lower name) =
      ps.reverse.find? fun p => Text.lower p.name = Text.lower name) ∧
    ((∀ a ∈ single, ∀ c ∈ a.name, c.val < 128) →
      ((ps.map fun p => Text.lower p.name).Nodup ↔
        (single.map fun a => Text.lower (a.name.filter (· ≠ '_'))).Nodup)) := by
  intro ps single available
  have hmap : ps.map (fun p => (p.key, p.name, p.isSwitch, p.position.isSome)) =
      single.map (fun a =>
        (a.name, capitalized a.name, decide (a.type = .boolean), isPlaced a)) :=
    map_parametersFrom aliases help 0 s.arguments
  have hnames : ps.map (·.name) = single.map fun a => capitalized a.name := by
    simpa [List.map_map, Function.comp_def] using congrArg (List.map (·.2.1)) hmap
  refine ⟨hmap, ?_, fun p hp => ?_, Binding.Pass.start_available_eq_iff,
    fun name => Binding.Pass.get?_start ps _, fun hascii => ?_⟩
  · have hcount : single.countP isPlaced = s.arguments.countP isPlaced := by
      rw [List.countP_filter]
      refine List.countP_congr fun a _ => ?_
      cases hsingle : isSingle a <;> simp [isPlaced_of_isSingle_eq_false, hsingle]
    rw [hcount, List.range_eq_range']
    exact positions_parametersFrom aliases help 0 s.arguments
  · obtain ⟨a, -, ha⟩ := List.mem_map.mp (hmap ▸ List.mem_map_of_mem hp)
    obtain ⟨hkey, hname, -⟩ : a.name = p.key ∧ capitalized a.name = p.name ∧ _ := by
      simpa only [Prod.mk.injEq] using ha
    rw [← hkey, ← hname]
    exact capitalized_eq_nil
  · have hlower : (ps.map fun p => Text.lower p.name) =
        single.map fun a => Text.lower (a.name.filter (· ≠ '_')) := by
      calc (ps.map fun p => Text.lower p.name)
          = (ps.map (·.name)).map Text.lower := by rw [List.map_map]; rfl
        _ = single.map fun a => Text.lower (capitalized a.name) := by
          rw [hnames, List.map_map]; rfl
        _ = _ := List.map_congr_left fun a ha => lower_capitalized (hascii a ha)
    rw [hlower]

def listing : Signature where
  name := "list_files".toList
  arguments :=
    [⟨"type_name".toList, .text, .placeOrName, some .null⟩,
      ⟨"recurse".toList, .boolean, .placeOrName, some (.boolean false)⟩,
      ⟨"_depth".toList, .integer, .placeOnly, some .null⟩, ⟨"rest".toList, .text, .places, none⟩,
      ⟨"member_type".toList, .text, .nameOnly, some .null⟩]

theorem parameters_distinct_listing :
    let ps := listing.parameters [] []
    (∀ a ∈ listing.arguments.filter isSingle, ∀ c ∈ a.name, c.val < 128) ∧
      ps.map (·.name) = ["TypeName".toList, "Recurse".toList, "Depth".toList,
        "MemberType".toList] ∧
      ps.filterMap (·.position) = [0, 1] ∧ (∀ p ∈ ps, p.name ≠ []) ∧
      (Binding.Pass.start ps).available.map (·.2) = ps := by
  intro ps
  have hascii : ∀ a ∈ listing.arguments.filter isSingle, ∀ c ∈ a.name, c.val < 128 := by
    have hall : ∀ a ∈ listing.arguments.filter isSingle, a.name.all (·.val < 128) = true := by
      decide +kernel
    exact fun a ha c hc => of_decide_eq_true (List.all_eq_true.mp (hall a ha) c hc)
  have hletters : ((listing.arguments.filter isSingle).map fun a =>
      Text.lower (a.name.filter (· ≠ '_'))).Nodup := by decide +kernel
  obtain ⟨-, hpositions, hempty, hall, -, hdistinct⟩ := parameters_distinct listing [] []
  have hcount : (listing.arguments.filter isSingle).countP isPlaced = 2 := by decide +kernel
  refine ⟨hascii, by decide +kernel, ?_, fun p hp hp' => ?_,
    hall.mpr ((hdistinct hascii).mpr hletters)⟩
  · rw [hpositions, hcount]
    rfl
  · have hkeys : ∀ p ∈ ps, p.key.all (· = '_') = false := by decide +kernel
    have hkey : p.key.all (· = '_') = true :=
      List.all_eq_true.mpr fun c hc => decide_eq_true ((hempty p hp).mp hp' c hc)
    exact Bool.false_ne_true ((hkeys p hp).symm.trans hkey)

/-- Two arguments that differ in an underscore, and one that is called by it: the parameter of the
second hides that of the first, and the third has no name. -/
theorem parameters_hidden :
    let s : Signature := ⟨"copy".toList, ["file_name", "filename", "_"].map fun name =>
      ⟨name.toList, .text, .placeOrName, none⟩⟩
    let ps := s.parameters [] []
    ¬ (ps.map fun p => Text.lower p.name).Nodup ∧ ¬ (∀ p ∈ ps, p.name ≠ []) ∧
      (Binding.Pass.start ps).available.map (·.2) ≠ ps ∧
      (Binding.Pass.start ps).available.map (·.2.key) = ["filename".toList, ['_']] := by
  intro s ps
  have hkeys : (Binding.Pass.start ps).available.map (·.2.key) = ["filename".toList, ['_']] := by
    decide +kernel
  refine ⟨by decide +kernel, by decide +kernel, fun hall => ?_, hkeys⟩
  have hlength := congrArg List.length hall
  rw [List.length_map] at hlength
  exact absurd hlength (by decide +kernel)

end Signature

end CommandShell
