import CommandShell.Proofs.Number.Nan
import CommandShell.Proofs.Settings.Precedence
import CommandShell.Proofs.Text.Pieces

/-!
What the settings are that loading returns. Each is converted and then checked; the check of the
time a provider may take turns down what is zero or below, so that what is no number passes it.
-/

set_option autoImplicit false

namespace CommandShell

/-! ## Conversions -/

namespace Setting

def IsNan : Datum → Prop
  | .integer _ => False
  | .number x => x = .nan
  | d => ∃ printed, d.print = .ok printed ∧ Binary64.SpellsNan (Text.strip printed)

theorem written_eq_ok {d : Datum} {s : Text} (h : written d = .ok s) : d.print = .ok s := by
  unfold written at h
  cases hprint : d.print with
  | error raised =>
    rw [hprint] at h
    cases h
  | ok printed =>
    rw [hprint] at h
    exact congrArg Except.ok (Except.ok.inj h)

theorem ofInt_eq_ok {n : Int} {x : Binary64} (h : number (.integer n) = .ok x) :
    x = Binary64.ofInt n := by
  simp only [number] at h
  split at h
  · cases h
  · exact (Except.ok.inj h).symm

theorem read?_of_number {d : Datum} {x : Binary64} (hinteger : ∀ n, d ≠ .integer n)
    (hnumber : ∀ y, d ≠ .number y) (h : number d = .ok x) :
    ∃ printed, d.print = .ok printed ∧ Binary64.read? (Text.strip printed) = some x := by
  unfold number at h
  split at h
  · exact absurd rfl (hinteger _)
  · exact absurd rfl (hnumber _)
  · obtain ⟨s, hs, h⟩ := of_bind_eq_ok h
    refine ⟨s, written_eq_ok hs, ?_⟩
    split at h
    · rename_i y hread
      rw [hread, Except.ok.inj h]
    · obtain ⟨shown, -, h⟩ := of_bind_eq_ok h
      cases h

theorem number_eq_nan {d : Datum} {x : Binary64} (h : number d = .ok x) : x = .nan ↔ IsNan d := by
  have hprinted (hinteger : ∀ n, d ≠ .integer n) (hnumber : ∀ y, d ≠ .number y) :
      x = .nan ↔ ∃ printed, d.print = .ok printed ∧ Binary64.SpellsNan (Text.strip printed) := by
    obtain ⟨printed, hprint, hread⟩ := read?_of_number hinteger hnumber h
    simp [hprint, ← Binary64.read?_eq_nan, hread]
  cases d with
  | integer n => exact iff_of_false (ofInt_eq_ok h ▸ Binary64.ofRatio_ne_nan _ _ _) id
  | number y => rw [IsNan, Except.ok.inj h]
  | _ => exact hprinted (fun _ => Datum.noConfusion) fun _ => Datum.noConfusion

theorem level?_eq_ok {d : Datum} {level : Option Text} (h : level? d = .ok level) :
    level = none ∨ ∃ name ∈ levels, level = some name := by
  obtain ⟨given, -, h⟩ := of_bind_eq_ok h
  cases given with
  | none => exact .inl (Except.ok.inj h).symm
  | some name =>
    dsimp only at h
    split at h
    · rename_i hlevel
      exact .inr ⟨_, List.contains_iff_mem.mp hlevel, (Except.ok.inj h).symm⟩
    · cases h

def IsIdentifier (s : Text) : Prop :=
  ∃ c rest, s = c :: rest ∧ (c.isAlpha = true ∨ c = '_') ∧ ∀ d ∈ rest, Text.isWord d = true

def IsModulePath (s : Text) : Prop :=
  ∃ parts ≠ [], (∀ part ∈ parts, IsIdentifier part) ∧ s = Text.join ['.'] parts

theorem isPackagePart_iff (s : Text) : isPackagePart s = true ↔ IsIdentifier s := by
  cases s with
  | nil => simp [isPackagePart, IsIdentifier]
  | cons c rest => simp [isPackagePart, IsIdentifier]

theorem point_not_mem {part : Text} (h : IsIdentifier part) : '.' ∉ part := by
  obtain ⟨c, rest, rfl, hc, hrest⟩ := h
  intro hpoint
  rcases List.mem_cons.mp hpoint with rfl | hpoint
  · exact absurd hc (by decide)
  · exact absurd (hrest '.' hpoint) (by decide +kernel)

theorem isPackageName_iff (s : Text) : isPackageName s = true ↔ IsModulePath s := by
  simp only [isPackageName, List.all_eq_true, isPackagePart_iff]
  constructor
  · intro h
    refine ⟨Text.pieces (· == '.') s, ?_, h, (Text.join_pieces '.' s).symm⟩
    rw [Text.pieces_eq_splitOnP]
    exact List.splitOnP_ne_nil _ s
  · rintro ⟨parts, hne, hparts, rfl⟩
    rwa [Text.pieces_join (fun part hpart => point_not_mem (hparts part hpart)) hne]

end Setting

/-! ## Loading -/

namespace Settings

open Setting

variable {surroundings : Surroundings} {layer : Layer} {s : Settings}

/-- The settings that the values of a layer are converted to. -/
structure Converts (surroundings : Surroundings) (layer : Layer) (s : Settings) : Prop where
  package : ∃ name, written ((layer.get? "PLUGIN_PACKAGE".toList).getD .null) = .ok name ∧
    s.package = Text.strip name
  logLevel : level? ((layer.get? "LOG_LEVEL".toList).getD .null) = .ok s.logLevel
  logPath : path? surroundings ((layer.get? "LOG_FILE_PATH".toList).getD .null) = .ok s.logPath
  timeout : number ((layer.get? "PROVIDER_TIMEOUT".toList).getD .null) = .ok s.timeout
  limit : integer ((layer.get? "MAX_COMPLETION_RESULTS".toList).getD .null) = .ok s.limit
  completes : boolean ((layer.get? "ENABLE_COMPLETION".toList).getD .null) = .ok s.completes
  prompt : text? ((layer.get? "PROMPT".toList).getD .null) = .ok s.prompt
  showsBanner : boolean ((layer.get? "SHOW_BANNER".toList).getD .null) = .ok s.showsBanner
  extra : s.extra = layer.filter fun (name, _) => !defaults.has name

structure Accepted (s : Settings) : Prop where
  package : IsModulePath s.package
  timeout : s.timeout.Positive ∨ s.timeout = .nan
  limit : 1 ≤ s.limit

theorem check_eq_ok {given : Settings} (h : check given = .ok s) : s = given ∧ s.Accepted := by
  unfold check at h
  split at h
  · cases h
  · rename_i hpackage
    split at h
    · cases h
    · rename_i htimeout
      split at h
      · cases h
      · rename_i hlimit
        obtain rfl := Except.ok.inj h
        exact ⟨rfl, (isPackageName_iff _).mp (by simpa using hpackage),
          Binary64.isAtMostZero_eq_false.mp (by simpa using htimeout), Int.not_lt.mp hlimit⟩

theorem ofLayer_eq_ok (h : ofLayer surroundings layer = .ok s) :
    Converts surroundings layer s ∧ s.Accepted := by
  obtain ⟨name, hname, h⟩ := of_bind_eq_ok h
  obtain ⟨logLevel, hlevel, h⟩ := of_bind_eq_ok h
  obtain ⟨logPath, hpath, h⟩ := of_bind_eq_ok h
  obtain ⟨timeout, htimeout, h⟩ := of_bind_eq_ok h
  obtain ⟨limit, hlimit, h⟩ := of_bind_eq_ok h
  obtain ⟨completes, hcompletes, h⟩ := of_bind_eq_ok h
  obtain ⟨prompt, hprompt, h⟩ := of_bind_eq_ok h
  obtain ⟨showsBanner, hshows, h⟩ := of_bind_eq_ok h
  obtain ⟨rfl, haccepted⟩ := check_eq_ok h
  exact ⟨⟨⟨name, hname, rfl⟩, hlevel, hpath, htimeout, hlimit, hcompletes, hprompt, hshows, rfl⟩,
    haccepted⟩

theorem mem_keys_merge {layers : List Layer} {l : Layer} {key : Text} (hl : l ∈ layers)
    (h : key ∈ l.map (·.1)) : key ∈ (Layer.merge layers).map (·.1) := by
  induction layers using List.reverseRecOn with
  | nil => cases hl
  | append_singleton layers last ih =>
    have hkeys := Entries.keys_subset_update (Layer.merge layers) last
    rw [Layer.merge, List.foldl_append, ← Layer.merge]
    rcases List.mem_append.mp hl with hl | hl
    · exact hkeys.1 (ih hl)
    · exact hkeys.2 (List.mem_singleton.mp hl ▸ h)

def place (surroundings : Surroundings) : Text :=
  Path.text (surroundings.folder ++ ["config.ini".toList])

theorem load_eq_ok {files : SettingsFiles} {vars : List (Text × Text)}
    (h : load surroundings files vars = .ok s) :
    ∃ layers, Layer.all (place surroundings) files vars = .ok layers ∧
      ofLayer surroundings (Layer.merge (defaults :: layers)) = .ok s := by
  obtain ⟨layers, hall, h⟩ := of_bind_eq_ok h
  refine ⟨layers, hall, ?_⟩
  cases hlayer : ofLayer surroundings (Layer.merge (defaults :: layers)) with
  | error fault =>
    rw [hlayer] at h
    cases h
  | ok settings =>
    rw [hlayer] at h
    rw [Except.ok.inj h]

/-- Settings that are loaded are within their bounds, but for the time a provider may take: it is
positive unless the value that is merged for it is not a number. -/
theorem load_constraints {files : SettingsFiles} {vars : List (Text × Text)}
    (h : load surroundings files vars = .ok s) :
    IsModulePath s.package ∧ (s.logLevel = none ∨ ∃ name ∈ levels, s.logLevel = some name) ∧
      1 ≤ s.limit ∧
      ∃ layers given, Layer.all (place surroundings) files vars = .ok layers ∧
        (Layer.merge (defaults :: layers)).get? "PROVIDER_TIMEOUT".toList = some given ∧
        number given = .ok s.timeout ∧ (s.timeout.Positive ↔ ¬ IsNan given) := by
  obtain ⟨layers, hall, hlayer⟩ := load_eq_ok h
  obtain ⟨hconverts, haccepted⟩ := ofLayer_eq_ok hlayer
  have hkey : "PROVIDER_TIMEOUT".toList ∈ (Layer.merge (defaults :: layers)).map (·.1) :=
    mem_keys_merge List.mem_cons_self (by decide +kernel)
  obtain ⟨given, hgiven⟩ := Option.isSome_iff_exists.mp (Entries.isSome_get?.mpr hkey)
  have htimeout : number given = .ok s.timeout := by
    have hconverted := hconverts.timeout
    rwa [hgiven, Option.getD_some] at hconverted
  refine ⟨haccepted.package, level?_eq_ok hconverts.logLevel, haccepted.limit, layers, given, hall,
    hgiven, htimeout, ?_⟩
  rw [← number_eq_nan htimeout]
  constructor
  · intro hpositive hnan
    exact Binary64.not_positive_nan (hnan ▸ hpositive)
  · exact haccepted.timeout.resolve_right

def nowhere : Surroundings := ⟨["home".toList], [], [], []⟩

def noFiles : SettingsFiles := ⟨[], [], [], []⟩

theorem load_constraints_mixed :
    ∃ s, load nowhere { noFiles with assignments := "tabline_log_level=debug".toList }
        [("TABLINE_PROVIDER_TIMEOUT".toList, " 2.5".toList)] = .ok s ∧
      IsModulePath s.package ∧ (s.logLevel = none ∨ ∃ name ∈ levels, s.logLevel = some name) ∧
      1 ≤ s.limit ∧ s.logLevel = some "DEBUG".toList ∧ s.timeout.Positive := by
  have hload : ∃ s, load nowhere { noFiles with assignments := "tabline_log_level=debug".toList }
      [("TABLINE_PROVIDER_TIMEOUT".toList, " 2.5".toList)] = .ok s := ⟨_, rfl⟩
  obtain ⟨s, hs⟩ := hload
  obtain ⟨hpackage, hlevel, hlimit, -⟩ := load_constraints hs
  refine ⟨s, hs, hpackage, hlevel, hlimit, ?_⟩
  cases hs
  exact ⟨rfl, (Binary64.isPositive_iff _).mp (by decide +kernel)⟩

/-- What is no number is not turned down. -/
theorem load_nan :
    ∃ s, load nowhere noFiles [("TABLINE_PROVIDER_TIMEOUT".toList, "nan".toList)] = .ok s ∧
      ¬ s.timeout.Positive :=
  ⟨_, rfl, Binary64.not_positive_nan⟩

end Settings

end CommandShell
