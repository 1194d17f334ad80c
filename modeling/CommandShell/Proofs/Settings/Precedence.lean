import CommandShell.Proofs.Entries
import CommandShell.Settings.Basic

/-!
Which source a setting comes from. A source may spell a name in several ways, and the highest one
that spells it in any of them gives its value.
-/

set_option autoImplicit false

namespace CommandShell

namespace Entries

variable {κ α : Type} [DecidableEq κ]

theorem get?_update_of_nodup (entries : Entries κ α) {later : Entries κ α}
    (hn : (later.map (·.1)).Nodup) (key : κ) :
    get? (update entries later) key = (get? later key).or (get? entries key) := by
  rw [get?_update, get?_reverse hn]

end Entries

namespace Layer

variable {table : List (Text × Datum)} {start key name : Text} {path : List Text} {d : Datum}

/-! ## Tables in tables -/

/-- Tables named one in another, from the outermost on, lead to a value that is no table. -/
inductive Leads : List (Text × Datum) → List Text → Text → Datum → Prop where
  | here {table : List (Text × Datum)} {key : Text} {d : Datum} (h : (key, d) ∈ table)
      (hd : ∀ entries, d ≠ .map entries) : Leads table [] key d
  | inside {table entries : List (Text × Datum)} {name : Text} {path : List Text} {key : Text}
      {d : Datum} (h : (name, .map entries) ∈ table) (hrest : Leads entries path key d) :
      Leads table (name :: path) key d

theorem leads_cons (entry : Text × Datum) (rest : List (Text × Datum)) :
    Leads (entry :: rest) path key d ↔ Leads [entry] path key d ∨ Leads rest path key d := by
  constructor
  · rintro (⟨h, hd⟩ | ⟨h, hrest⟩)
    · exact (List.mem_cons.mp h).imp (fun h => .here (List.mem_singleton.mpr h) hd) (.here · hd)
    · exact (List.mem_cons.mp h).imp (fun h => .inside (List.mem_singleton.mpr h) hrest)
        (.inside · hrest)
  · rintro ((⟨h, hd⟩ | ⟨h, hrest⟩) | (⟨h, hd⟩ | ⟨h, hrest⟩))
    · exact .here (List.mem_cons.mpr (.inl (List.mem_singleton.mp h))) hd
    · exact .inside (List.mem_cons.mpr (.inl (List.mem_singleton.mp h))) hrest
    · exact .here (List.mem_cons_of_mem _ h) hd
    · exact .inside (List.mem_cons_of_mem _ h) hrest

theorem leads_table {entries : List (Text × Datum)} :
    Leads [(name, .map entries)] path key d ↔
      ∃ rest, path = name :: rest ∧ Leads entries rest key d := by
  constructor
  · rintro (⟨h, hd⟩ | ⟨h, hrest⟩)
    · exact absurd (Prod.mk.inj (List.mem_singleton.mp h)).2 (hd entries)
    · obtain ⟨rfl, he⟩ := Prod.mk.inj (List.mem_singleton.mp h)
      cases he
      exact ⟨_, rfl, hrest⟩
  · rintro ⟨rest, rfl, hrest⟩
    exact .inside (List.mem_singleton_self _) hrest

theorem leads_value {value : Datum} (hvalue : ∀ entries, value ≠ .map entries) :
    Leads [(name, value)] path key d ↔ path = [] ∧ key = name ∧ d = value := by
  constructor
  · rintro (⟨h, -⟩ | ⟨h, -⟩)
    · obtain ⟨rfl, rfl⟩ := Prod.mk.inj (List.mem_singleton.mp h)
      exact ⟨rfl, rfl, rfl⟩
    · exact absurd (Prod.mk.inj (List.mem_singleton.mp h)).2.symm (hvalue _)
  · rintro ⟨rfl, rfl, rfl⟩
    exact .here (List.mem_singleton_self _) hvalue

/-- The outermost tables that are not named in what is inside them. -/
def isTransparent (name : Text) : Bool := name.isEmpty || Text.lower name = ownTable

/-- The name that a way through tables and a key in the last of them spell. -/
def spelled (path : List Text) (key : Text) : Text :=
  Text.join ['_'] (path.dropWhile isTransparent ++ [key])

def spelledFrom (start : Text) (path : List Text) (key : Text) : Text :=
  if start.isEmpty then spelled path key else Text.join ['_'] (start :: path ++ [key])

theorem spelledFrom_nil (start key : Text) : spelledFrom start [] key = joinedName start key := by
  unfold spelledFrom joinedName
  split <;> simp [spelled, Text.join_cons]

theorem spelledFrom_cons (start name : Text) (path : List Text) (key : Text) :
    spelledFrom start (name :: path) key =
      if start.isEmpty && Text.lower name = ownTable then spelledFrom [] path key
      else spelledFrom (joinedName start name) path key := by
  cases start with
  | nil =>
    by_cases hown : Text.lower name = ownTable
    · simp [spelledFrom, spelled, isTransparent, hown]
    · cases name <;>
        simp [spelledFrom, spelled, joinedName, isTransparent, hown]
  | cons c start => simp [spelledFrom, joinedName, Text.join_cons]

theorem exists_leads_table {entries : List (Text × Datum)} :
    (∃ path last, Leads [(key, .map entries)] path last d ∧ name = spelledFrom start path last) ↔
      ∃ path last, Leads entries path last d ∧ name = spelledFrom start (key :: path) last := by
  constructor
  · rintro ⟨_, last, hleads, hname⟩
    obtain ⟨path, rfl, hrest⟩ := leads_table.mp hleads
    exact ⟨path, last, hrest, hname⟩
  · rintro ⟨path, last, hrest, hname⟩
    exact ⟨key :: path, last, leads_table.mpr ⟨path, rfl, hrest⟩, hname⟩

theorem mem_settingsIn_value {value : Datum} (hvalue : ∀ entries, value ≠ .map entries) :
    (name, d) ∈ settingsIn start key value ↔
      ∃ path last, Leads [(key, value)] path last d ∧ name = spelledFrom start path last := by
  have hone : settingsIn start key value = [(joinedName start key, value)] := by
    cases value with
    | map entries => exact absurd rfl (hvalue entries)
    | _ => simp [settingsIn]
  rw [hone, List.mem_singleton, Prod.mk.injEq]
  simp [leads_value hvalue, spelledFrom_nil, and_comm]

mutual

theorem mem_settingsIn (start key : Text) : ∀ value : Datum,
    (name, d) ∈ settingsIn start key value ↔
      ∃ path last, Leads [(key, value)] path last d ∧ name = spelledFrom start path last
  | .map entries => by
    rw [exists_leads_table, settingsIn]
    simp only [spelledFrom_cons]
    split
    · exact mem_settingsOf [] entries
    · exact mem_settingsOf (joinedName start key) entries
  | .null | .boolean _ | .integer _ | .number _ | .text _ | .member _ | .script _ | .moment _
  | .list _ | .object _ => mem_settingsIn_value (by simp)

theorem mem_settingsOf (start : Text) : ∀ table : List (Text × Datum),
    (name, d) ∈ settingsOf start table ↔
      ∃ path key, Leads table path key d ∧ name = spelledFrom start path key
  | [] => by
    constructor
    · rintro ⟨⟩
    · rintro ⟨path, key, ⟨⟨⟩, -⟩ | ⟨⟨⟩, -⟩, -⟩
  | (key, value) :: rest => by
    rw [settingsOf, List.mem_append, mem_settingsIn start key value, mem_settingsOf start rest]
    simp only [leads_cons (key, value) rest, or_and_right, exists_or]

end

/-- The settings of a table are the values that it leads to, under the names that lead there. -/
theorem mem_settingsOf_nil :
    (name, d) ∈ settingsOf [] table ↔
      ∃ path key, Leads table path key d ∧ name = spelled path key :=
  mem_settingsOf [] table

/-! ## Layers -/

variable {settings : List (Text × Datum)} {l : Layer}

/-- A name in a file stands for a key in any case of its letters, with or without the mark in
front. -/
def Spells (name key : Text) : Prop := Text.upper name = key ∨ Text.upper name = mark ++ key

theorem startsWith_mark_append (key : Text) : Text.startsWith (mark ++ key) mark = true :=
  List.isPrefixOf_iff_prefix.mpr (List.prefix_append mark key)

theorem unmarked_eq_iff (hkey : Text.startsWith key mark = false) :
    unmarked (Text.upper name) = key ↔ Spells name key := by
  unfold unmarked Spells
  split
  · rename_i hmarked
    obtain ⟨rest, hrest⟩ := List.isPrefixOf_iff_prefix.mp hmarked
    rw [← hrest, List.drop_left]
    constructor
    · rintro rfl
      exact .inr rfl
    · rintro (hwhole | hwhole)
      · rw [← hwhole, startsWith_mark_append] at hkey
        cases hkey
      · exact List.append_cancel_left hwhole
  · rename_i hbare
    refine ⟨.inl, fun h => h.resolve_right fun hwhole => hbare ?_⟩
    rw [hwhole, startsWith_mark_append]

theorem mem_ofFile (h : (key, d) ∈ ofFile settings) :
    ∃ name, (name, d) ∈ settings ∧ unmarked (Text.upper name) = key := by
  obtain ⟨⟨whole, d⟩, hwhole, ⟨⟩⟩ := List.mem_map.mp (Entries.mem_of_mem_ofList h)
  obtain ⟨⟨name, d⟩, hname, ⟨⟩⟩ := List.mem_map.mp (Entries.mem_of_mem_ofList hwhole)
  exact ⟨name, hname, rfl⟩

theorem mem_keys_ofFile (h : (name, d) ∈ settings) :
    unmarked (Text.upper name) ∈ (ofFile settings).map (·.1) := by
  rw [ofFile, Entries.mem_keys_ofList, List.map_map]
  have hupper : Text.upper name ∈
      (Entries.ofList (settings.map (Prod.map Text.upper id))).map (·.1) := by
    rw [Entries.mem_keys_ofList, List.map_map]
    exact List.mem_map_of_mem (f := fun entry => Text.upper entry.1) h
  obtain ⟨entry, hentry, he⟩ := List.mem_map.mp hupper
  exact List.mem_map.mpr ⟨entry, hentry, congrArg unmarked he⟩

def InTexts (settings : List (Text × Text)) (key : Text) (d : Datum) : Prop :=
  ∃ name s, (name, s) ∈ settings ∧ d = .text s ∧ Spells name key

def InTable (table : List (Text × Datum)) (key : Text) (d : Datum) : Prop :=
  ∃ path last, Leads table path last d ∧ Spells (spelled path last) key

def InEnvironment (vars : List (Text × Text)) (key : Text) (d : Datum) : Prop :=
  ∃ s, (mark ++ key, s) ∈ vars ∧ d = .text s

def GivesOne (l : Layer) (key : Text) (defined : Datum → Prop) : Prop :=
  (∃ d, l.get? key = some d ∧ defined d) ∨ l.get? key = none ∧ ∀ d, ¬ defined d

theorem GivesOne.congr {defined meant : Datum → Prop} (h : l.GivesOne key defined)
    (hsame : ∀ d, meant d ↔ defined d) : l.GivesOne key meant := by
  obtain rfl : meant = defined := funext fun d => propext (hsame d)
  exact h

theorem givesOne_of_mem {defined : Datum → Prop} (hsound : ∀ d, (key, d) ∈ l → defined d)
    (hcomplete : ∀ d, defined d → key ∈ l.map (·.1)) : l.GivesOne key defined := by
  cases hget : l.get? key with
  | some d => exact .inl ⟨d, hget, hsound d (Entries.mem_of_get? hget)⟩
  | none =>
    refine .inr ⟨hget, fun d hd => ?_⟩
    have hthere := Entries.isSome_get?.mpr (hcomplete d hd)
    rw [hget] at hthere
    cases hthere

theorem givesOne_ofFile (settings : List (Text × Datum)) (hkey : Text.startsWith key mark = false) :
    (ofFile settings).GivesOne key fun d => ∃ name, (name, d) ∈ settings ∧ Spells name key := by
  refine givesOne_of_mem (fun d hd => ?_) ?_
  · obtain ⟨name, hname, hspells⟩ := mem_ofFile hd
    exact ⟨name, hname, (unmarked_eq_iff hkey).mp hspells⟩
  · rintro d ⟨name, hname, hspells⟩
    exact (unmarked_eq_iff hkey).mpr hspells ▸ mem_keys_ofFile hname

theorem givesOne_ofTexts (settings : List (Text × Text)) (hkey : Text.startsWith key mark = false) :
    (ofTexts settings).GivesOne key (InTexts settings key) := by
  refine (givesOne_ofFile _ hkey).congr fun d => ?_
  simp only [InTexts, List.mem_map, Prod.exists, Prod.mk.injEq]
  constructor
  · rintro ⟨name, s, hname, rfl, hspells⟩
    exact ⟨name, ⟨name, s, hname, rfl, rfl⟩, hspells⟩
  · rintro ⟨_, ⟨name, s, hname, rfl, rfl⟩, hspells⟩
    exact ⟨name, s, hname, rfl, hspells⟩

theorem givesOne_settingsOf (table : List (Text × Datum))
    (hkey : Text.startsWith key mark = false) :
    (ofFile (settingsOf [] table)).GivesOne key (InTable table key) := by
  refine (givesOne_ofFile _ hkey).congr fun d => ?_
  simp only [InTable, mem_settingsOf_nil]
  constructor
  · rintro ⟨path, last, hleads, hspells⟩
    exact ⟨_, ⟨path, last, hleads, rfl⟩, hspells⟩
  · rintro ⟨_, ⟨path, last, hleads, rfl⟩, hspells⟩
    exact ⟨path, last, hleads, hspells⟩

theorem nodup_keys_ofFile (settings : List (Text × Datum)) :
    ((ofFile settings).map (·.1)).Nodup := Entries.nodup_keys_ofList _

def isSetting (name : Text) : Bool := Text.startsWith name mark && name.all isSettingChar

def settingOf? (entry : Text × Text) : Option (Text × Datum) :=
  if isSetting entry.1 then some (entry.1.drop mark.length, .text entry.2) else none

theorem ofEnvironment_eq (vars : List (Text × Text)) :
    ofEnvironment vars = Entries.ofList (vars.filterMap settingOf?) := rfl

theorem mem_settingOf? {vars : List (Text × Text)} (hkey : key.all isSettingChar = true) :
    (key, d) ∈ vars.filterMap settingOf? ↔ InEnvironment vars key d := by
  rw [List.mem_filterMap]
  constructor
  · rintro ⟨⟨name, s⟩, hvariable, hsome⟩
    obtain ⟨hname, he⟩ := Option.ite_none_right_eq_some.mp hsome
    obtain ⟨rfl, rfl⟩ := Prod.mk.inj (Option.some.inj he)
    obtain ⟨rest, rfl⟩ := List.isPrefixOf_iff_prefix.mp (Bool.and_eq_true_iff.mp hname).1
    exact ⟨s, by rwa [List.drop_left], rfl⟩
  · rintro ⟨s, hvariable, rfl⟩
    have hname : isSetting (mark ++ key) = true := by
      rw [isSetting, startsWith_mark_append, List.all_append, hkey]
      decide
    exact ⟨_, hvariable, by rw [settingOf?, if_pos hname, List.drop_left]⟩

theorem givesOne_ofEnvironment (vars : List (Text × Text)) (hkey : key.all isSettingChar = true) :
    (ofEnvironment vars).GivesOne key (InEnvironment vars key) := by
  rw [ofEnvironment_eq]
  refine givesOne_of_mem (fun d hd => (mem_settingOf? hkey).mp (Entries.mem_of_mem_ofList hd)) ?_
  intro d hd
  rw [Entries.mem_keys_ofList]
  exact List.mem_map_of_mem (f := (·.1)) ((mem_settingOf? hkey).mpr hd)

theorem ofEnvironment_skip (before after : List (Text × Text)) {name : Text} (value : Text)
    (hname : isSetting name = false) :
    ofEnvironment (before ++ (name, value) :: after) = ofEnvironment (before ++ after) := by
  have hskipped : settingOf? (name, value) = none := if_neg (by simp [hname])
  rw [ofEnvironment_eq, ofEnvironment_eq, List.filterMap_append, List.filterMap_append,
    List.filterMap_cons_none hskipped]

theorem get?_merge_concat (layers : List Layer) {l : Layer} (hn : (l.map (·.1)).Nodup)
    (key : Text) :
    (merge (layers ++ [l])).get? key = (l.get? key).or ((merge layers).get? key) := by
  rw [merge, List.foldl_append, ← merge]
  exact Entries.get?_update_of_nodup _ hn key

theorem get?_merge_of_highest {lower higher : List Layer}
    (hn : ∀ m ∈ l :: higher, (m.map (·.1)).Nodup) (hl : l.get? key = some d)
    (hhigher : ∀ m ∈ higher, m.get? key = none) :
    (merge (lower ++ l :: higher)).get? key = some d := by
  induction higher using List.reverseRecOn with
  | nil => rw [get?_merge_concat lower (hn l (List.mem_cons_self ..)), hl, Option.some_or]
  | append_singleton higher m ih =>
    have hm : m ∈ l :: (higher ++ [m]) := by simp
    rw [← List.cons_append, ← List.append_assoc, get?_merge_concat _ (hn m hm),
      hhigher m (by simp), Option.none_or]
    refine ih (fun m' hm' => hn m' ?_) fun m' hm' => hhigher m' (List.mem_append_left _ hm')
    exact List.cons_subset_cons _ (List.subset_append_left _ _) hm'

theorem get?_merge_eq_none {layers : List Layer} (hn : ∀ m ∈ layers, (m.map (·.1)).Nodup)
    (h : ∀ m ∈ layers, m.get? key = none) : (merge layers).get? key = none := by
  induction layers using List.reverseRecOn with
  | nil => rfl
  | append_singleton layers m ih =>
    rw [get?_merge_concat _ (hn m (by simp)), h m (by simp), Option.none_or]
    exact ih (fun m' hm' => hn m' (by simp [hm'])) fun m' hm' => h m' (by simp [hm'])

end Layer

/-! ## Sources -/

namespace Settings

open Layer

/-- Where settings come from, the weakest source first. -/
inductive Origin where
  | defaults
  | assignments
  | sections
  | json
  | toml
  | environment

namespace Origin

def all : List Origin := [defaults, assignments, sections, json, toml, environment]

def rank : Origin → Nat
  | defaults => 0
  | assignments => 1
  | sections => 2
  | json => 3
  | toml => 4
  | environment => 5

theorem all_eq_append (o : Origin) :
    ∃ lower higher, all = lower ++ o :: higher ∧ ∀ other ∈ higher, o.rank < other.rank :=
  ⟨all.take o.rank, all.drop (o.rank + 1), by cases o <;> rfl, by cases o <;> simp [all, rank]⟩

end Origin

structure Contents where
  assignments : List (Text × Text)
  sections : List (Text × Text)
  json : List (Text × Datum)
  toml : List (Text × Datum)
  vars : List (Text × Text)

namespace Contents

variable {c : Contents} {key : Text} {o : Origin} {d : Datum}

def merged (c : Contents) : Except Fault Layer := do
  let json ← ofTable c.json
  let toml ← ofTable c.toml
  pure (merge (defaults :: [ofTexts c.assignments, ofTexts c.sections, json, toml,
    ofEnvironment c.vars]))

/-- The parsers return contents for the texts of files. A malformed file counts as an empty one. -/
structure Read (files : SettingsFiles) (c : Contents) : Prop where
  assignments : Assignments.read files.assignments = c.assignments
  sections : (Sections.read files.sections >>= Sections.all) = .ok c.sections
  json : Json.read files.json = .ok (.map c.json) ∨
    Json.read files.json = .error .malformed ∧ c.json = []
  toml : Toml.read files.toml = .ok c.toml ∨ Toml.read files.toml = .error .malformed ∧ c.toml = []

theorem Read.ofJson_eq {files : SettingsFiles} (h : c.Read files) :
    ofJson files.json = ofTable c.json := by
  rcases h.json with hread | ⟨hread, hnone⟩
  · simp only [ofJson, hread]
  · simp only [ofJson, hread, hnone]
    rfl

theorem Read.ofToml_eq {files : SettingsFiles} (h : c.Read files) :
    ofToml files.toml = ofTable c.toml := by
  rcases h.toml with hread | ⟨hread, hnone⟩
  · simp only [ofToml, hread]
  · simp only [ofToml, hread, hnone]
    rfl

theorem Read.load_eq {files : SettingsFiles} (h : c.Read files) (surroundings : Surroundings) :
    load surroundings files c.vars =
      c.merged >>= fun settings => (ofLayer surroundings settings).mapError (·.fault) := by
  unfold load Layer.all merged
  simp only [ofSections, h.sections, h.ofJson_eq, h.ofToml_eq, ofAssignments, h.assignments]
  cases ofTable c.json with
  | error fault => rfl
  | ok json =>
    cases ofTable c.toml with
    | error fault => rfl
    | ok toml => rfl

def layer (c : Contents) : Origin → Layer
  | .defaults => defaults
  | .assignments => ofTexts c.assignments
  | .sections => ofTexts c.sections
  | .json => ofFile (settingsOf [] c.json)
  | .toml => ofFile (settingsOf [] c.toml)
  | .environment => ofEnvironment c.vars

def Shallow (c : Contents) : Prop :=
  (Datum.map c.json).depth ≤ maxDepth ∧ (Datum.map c.toml).depth ≤ maxDepth

theorem merged_of_shallow (h : c.Shallow) : c.merged = .ok (merge (Origin.all.map c.layer)) := by
  simp only [merged, ofTable, Nat.not_lt.mpr h.1, Nat.not_lt.mpr h.2, if_false]
  rfl

theorem merged_of_not_shallow (h : ¬ c.Shallow) : c.merged = .error (tooDeep " in comparison") := by
  unfold Shallow at h
  unfold merged ofTable
  by_cases hjson : (Datum.map c.json).depth ≤ maxDepth
  · have htoml : (Datum.map c.toml).depth > maxDepth :=
      Nat.lt_of_not_le fun htoml => h ⟨hjson, htoml⟩
    rw [if_neg (Nat.not_lt.mpr hjson), if_pos htoml]
    rfl
  · rw [if_pos (Nat.lt_of_not_le hjson)]
    rfl

/-- A source defines a key, under any of the names that stand for it there. -/
def Gives (c : Contents) (key : Text) : Origin → Datum → Prop
  | .defaults => fun d => (key, d) ∈ defaults
  | .assignments => InTexts c.assignments key
  | .sections => InTexts c.sections key
  | .json => InTable c.json key
  | .toml => InTable c.toml key
  | .environment => InEnvironment c.vars key

theorem nodup_keys_layer (c : Contents) (o : Origin) : ((c.layer o).map (·.1)).Nodup := by
  cases o with
  | defaults =>
    change (Settings.defaults.map (·.1)).Nodup
    decide +kernel
  | assignments | sections | json | toml => exact nodup_keys_ofFile _
  | environment => exact Entries.nodup_keys_ofList _

theorem givesOne_layer (c : Contents) (hkey : key.all isSettingChar = true)
    (hmark : Text.startsWith key mark = false) (o : Origin) :
    (c.layer o).GivesOne key (c.Gives key o) := by
  cases o with
  | defaults => exact givesOne_of_mem (fun d hd => hd) fun d hd => List.mem_map_of_mem hd
  | assignments => exact givesOne_ofTexts c.assignments hmark
  | sections => exact givesOne_ofTexts c.sections hmark
  | json => exact givesOne_settingsOf c.json hmark
  | toml => exact givesOne_settingsOf c.toml hmark
  | environment => exact givesOne_ofEnvironment c.vars hkey

/-- A key has the value that the highest source which defines it gives it by itself, under
whichever of its names; a key that no source defines has none. Variables of the environment whose
name has no mark in front or is not in capitals are as good as not there. Only tables that lie too
deep in others make the merge fail. -/
theorem merged_precedence (c : Contents) (hkey : key.all isSettingChar = true)
    (hmark : Text.startsWith key mark = false) :
    (c.Shallow → ∃ settings, c.merged = .ok settings ∧
      (∀ o d, c.Gives key o d → (∀ other, o.rank < other.rank → ∀ d, ¬ c.Gives key other d) →
        settings.get? key = (c.layer o).get? key ∧
          ∃ d, c.Gives key o d ∧ settings.get? key = some d) ∧
      ((∀ o d, ¬ c.Gives key o d) → settings.get? key = none)) ∧
    (¬ c.Shallow → c.merged = .error (tooDeep " in comparison")) ∧
    ∀ before after name value, c.vars = before ++ (name, value) :: after →
      isSetting name = false →
        ({ c with vars := before ++ after } : Contents).merged = c.merged := by
  have hn : ∀ os : List Origin, ∀ m ∈ os.map c.layer, (m.map (·.1)).Nodup := fun os m hm => by
    obtain ⟨o, -, rfl⟩ := List.mem_map.mp hm
    exact nodup_keys_layer c o
  refine ⟨fun hshallow => ⟨_, merged_of_shallow hshallow, fun o d hd hhigher => ?_, fun hno => ?_⟩,
    merged_of_not_shallow, fun before after name value hvars hname => ?_⟩
  · obtain ⟨lower, higher, hall, hrank⟩ := o.all_eq_append
    obtain ⟨given, hgiven, hdefined⟩ : ∃ d, (c.layer o).get? key = some d ∧ c.Gives key o d :=
      (givesOne_layer c hkey hmark o).resolve_right fun hnone => hnone.2 d hd
    have hsilent : ∀ m ∈ higher.map c.layer, m.get? key = none := fun m hm => by
      obtain ⟨other, hother, rfl⟩ := List.mem_map.mp hm
      exact ((givesOne_layer c hkey hmark other).resolve_left fun ⟨d, _, hd⟩ =>
        hhigher other (hrank other hother) d hd).1
    have hmerged : (merge (Origin.all.map c.layer)).get? key = some given := by
      rw [hall, List.map_append, List.map_cons]
      exact get?_merge_of_highest (hn (o :: higher)) hgiven hsilent
    exact ⟨hmerged.trans hgiven.symm, given, hdefined, hmerged⟩
  · refine get?_merge_eq_none (hn Origin.all) fun m hm => ?_
    obtain ⟨o, -, rfl⟩ := List.mem_map.mp hm
    exact ((givesOne_layer c hkey hmark o).resolve_left fun ⟨d, _, hd⟩ => hno o d hd).1
  · simp only [merged, hvars, ofEnvironment_skip before after value hname]

/-- Several spellings of one name; the variable of the environment is not in capitals. -/
def spellings : Contents where
  assignments := [("log_level".toList, "INFO".toList)]
  sections := [("tabline_log_level".toList, "ERROR".toList)]
  json := [("Tabline".toList, .map [("log".toList, .map [("Level".toList, .text "DEBUG".toList)])])]
  toml := []
  vars := [("tabline_LOG_LEVEL".toList, "WARNING".toList)]

theorem merged_precedence_spellings :
    ("LOG_LEVEL".toList.all isSettingChar = true ∧
      Text.startsWith "LOG_LEVEL".toList mark = false) ∧
    ∃ settings, spellings.merged = .ok settings ∧
      settings.get? "LOG_LEVEL".toList = some (.text "DEBUG".toList) := by
  have hkey : "LOG_LEVEL".toList.all isSettingChar = true := by decide
  have hmark : Text.startsWith "LOG_LEVEL".toList mark = false := by decide
  have hshallow : spellings.Shallow := ⟨by decide, by decide⟩
  have hjson : spellings.Gives "LOG_LEVEL".toList .json (.text "DEBUG".toList) :=
    ⟨["Tabline".toList, "log".toList], "Level".toList,
      .inside (List.mem_singleton_self _) (.inside (List.mem_singleton_self _)
        (.here (List.mem_singleton_self _) fun _ h => nomatch h)), .inl (by decide +kernel)⟩
  have hhigher : ∀ other : Origin, Origin.json.rank < other.rank →
      ∀ d, ¬ spellings.Gives "LOG_LEVEL".toList other d := by
    intro other hrank d hd
    cases other with
    | defaults | assignments | sections | json => exact absurd hrank (by decide)
    | toml =>
      obtain ⟨path, last, ⟨⟨⟩, -⟩ | ⟨⟨⟩, -⟩, -⟩ := hd
    | environment =>
      obtain ⟨s, hs, -⟩ := hd
      exact absurd (Prod.mk.inj (List.mem_singleton.mp hs)).1 (by decide)
  obtain ⟨hprecedence, -, -⟩ := merged_precedence spellings hkey hmark
  obtain ⟨settings, hmerged, hgiven, -⟩ := hprecedence hshallow
  exact ⟨⟨hkey, hmark⟩, settings, hmerged, (hgiven .json _ hjson hhigher).1.trans rfl⟩

def unnamed : Contents := ⟨[], [], [([], .map [("A".toList, .integer 1)])], [], []⟩

theorem unnamed_not_joined :
    Leads unnamed.json [[]] "A".toList (.integer 1) ∧
      Text.join ['_'] [[], "A".toList] = "_A".toList ∧
      ∃ settings, unnamed.merged = .ok settings ∧ settings.get? "_A".toList = none ∧
        settings.get? "A".toList = some (.integer 1) := by
  have hleads : Leads unnamed.json [[]] "A".toList (.integer 1) :=
    .inside (List.mem_singleton_self _) (.here (List.mem_singleton_self _) fun _ h => nomatch h)
  exact ⟨hleads, rfl, _, merged_of_shallow ⟨by decide, by decide⟩, rfl, rfl⟩

end Contents

end Settings

end CommandShell
