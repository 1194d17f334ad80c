import CommandShell.Proofs.Layout.Commands
import CommandShell.Proofs.Plugin.Bundled
import CommandShell.Proofs.Session.State

/-!
The controls over the lines of a session. The first of them may be made under a name that is no
text: then no name is looked up any more, and the controls stay as they are. Otherwise all stand
under their own names, which are texts.
-/

set_option autoImplicit false

namespace CommandShell

namespace Signature

variable {s : Signature} {keywords : Entries Text Datum} {a : DeclaredArgument}

theorem isSome_valueIn_of_fallback (h : a.fallback.isSome = true) :
    (valueIn keywords a).isSome = true := by
  unfold valueIn
  split <;> simp [h]

theorem isSome_valueIn_of_get? {d : Datum} (hname : isByName a = true)
    (h : keywords.get? a.name = some d) : (valueIn keywords a).isSome = true := by
  rw [valueIn, if_pos hname, h]
  rfl

theorem refusal?_eq_none (hany : s.takesAny = true) (hvalues : ∀ a ∈ s.arguments,
    a.kind = .names ∨ (valueIn keywords a).isSome = true) : s.refusal? keywords = none := by
  have hmissing (byName : Bool) : s.missing? keywords byName = none := by
    have hfilter : (s.arguments.filter fun a => (if byName then a.kind = .nameOnly
        else isByPlace a) && (valueIn keywords a).isNone) = [] := by
      refine List.filter_eq_nil_iff.mpr fun a ha => ?_
      rcases hvalues a ha with hkind | hvalue
      · cases byName <;> simp [isByPlace, hkind]
      · simp [Option.isNone_eq_false_iff.mpr hvalue]
    rw [missing?, hfilter]
  rw [refusal?, misfit?, if_pos hany, hmissing, hmissing]
  rfl

end Signature

namespace Layout

open Session

variable {layout : Layout} {command : Command Layout} {call : Call} {r : Received} {d : Datum}
  {name : Text} {m : Member}

/-! ## Names that are no texts -/

theorem lowered_of_ne_text (h : ∀ s, d ≠ .text s) : lowered d = .error (noAttribute d "lower") := by
  cases d with
  | text s => exact absurd rfl (h s)
  | _ => rfl

/-- One control, under a name that is no text. -/
structure Spoiled (layout : Layout) (d : Datum) : Prop where
  single : ∃ c : Control, c.name = d ∧ layout = [(d, c)]
  ne_text : ∀ s, d ≠ .text s

namespace Spoiled

theorem find?_eq (h : Spoiled layout d) (name : Datum) :
    find? layout name = .error (noAttribute d "lower") := by
  obtain ⟨c, -, rfl⟩ := h.single
  rw [find?, lowered_of_ne_text h.ne_text]
  rfl

theorem lookup_eq (h : Spoiled layout d) (name : Datum) :
    lookup layout name = .error (noAttribute d "lower") := by
  rw [lookup, h.find?_eq]
  rfl

theorem create_eq (h : Spoiled layout d) (r : Received) :
    create r layout = (.failed (noAttribute d "lower"), layout) := by
  rw [create, h.find?_eq]
  rfl

theorem change_eq (h : Spoiled layout d) (r : Received) :
    change r layout = (.failed (noAttribute d "lower"), layout) := by
  rw [change, h.lookup_eq]
  rfl

theorem remove_eq (h : Spoiled layout d) (r : Received) :
    remove r layout = (.failed (noAttribute d "lower"), layout) := by
  rw [remove, h.lookup_eq]
  rfl

end Spoiled

theorem action_snd {routine : Routine Layout} (h : ∀ r, (routine.body r layout).2 = layout) :
    (routine.action.run call layout).2 = layout :=
  action_keeps (· = layout) rfl fun r _ => h r

theorem Spoiled.run (h : Spoiled layout d) (hcommand : command ∈ commands) (call : Call) :
    (command.action.run call layout).2 = layout := by
  rw [commands] at hcommand
  simp only [List.map_cons, List.map_nil, List.mem_cons, List.not_mem_nil, or_false] at hcommand
  obtain rfl | rfl | rfl | rfl | rfl := hcommand
  · exact action_snd fun r => congrArg Prod.snd (h.create_eq r)
  · exact action_snd fun r => congrArg Prod.snd (h.change_eq r)
  · exact action_snd fun r => list_snd r layout
  · exact action_snd fun r => congrArg Prod.snd (h.remove_eq r)
  · exact action_snd fun r => display_snd r layout

/-! ## Making a control -/

def creation : Routine Layout where
  signature := ⟨"new_control".toList,
    [required "control_type" (.enumeration controlType), required "name" .text,
      optional "content" .text (.text []), nameOnly "parent" .text, nameOnly "width" .integer,
      nameOnly "height" .integer, attachedMembers]⟩
  body := create

def creator : Text := "New-Control".toList

theorem action_of_creator (hcommand : command ∈ commands) (hname : command.name = creator) :
    command.action = creation.action := by
  obtain rfl : command = maker := command_eq hcommand (List.head_mem _) hname
  rfl

def given (call : Call) (name : String) : Option Datum := call.keywords.get? name.toList

theorem argument_of_receive (h : creation.signature.receive call = .ok r) :
    argument r "control_type" = (given call "control_type").getD .null ∧
      argument r "name" = (given call "name").getD .null ∧
      argument r "parent" = (given call "parent").getD .null := by
  simp only [argument, (receive_eq_ok h).2, given]
  refine ⟨?_, ?_, ?_⟩
  · change ((call.keywords.get? "control_type".toList).or none).getD .null = _
    rw [Option.or_none]
  · change ((call.keywords.get? "name".toList).or none).getD .null = _
    rw [Option.or_none]
  · change ((call.keywords.get? "parent".toList).or (some .null)).getD .null = _
    cases call.keywords.get? "parent".toList <;> rfl

theorem receive_creation {type : Datum} (htype : given call "control_type" = some type)
    (hname : given call "name" = some d) : ∃ r, creation.signature.receive call = .ok r := by
  have hrefusal : creation.signature.refusal? call.keywords = none := by
    have hrest : ∀ a ∈ creation.signature.arguments.drop 2,
        a.kind = .names ∨ a.fallback.isSome = true := by decide
    refine Signature.refusal?_eq_none (by decide) ?_
    refine List.forall_mem_cons.mpr ⟨.inr (Signature.isSome_valueIn_of_get? rfl htype), ?_⟩
    refine List.forall_mem_cons.mpr ⟨.inr (Signature.isSome_valueIn_of_get? rfl hname), ?_⟩
    exact fun a ha => (hrest a ha).imp_right Signature.isSome_valueIn_of_fallback
  rw [Signature.receive, hrefusal]
  exact ⟨_, rfl⟩

theorem creation_run {type : Datum} (htype : given call "control_type" = some type)
    (hname : given call "name" = some d) (layout : Layout) :
    ∃ r, argument r "control_type" = type ∧ argument r "name" = d ∧
      argument r "parent" = (given call "parent").getD .null ∧
      creation.action.run call layout = create r layout := by
  obtain ⟨r, hr⟩ := receive_creation htype hname
  obtain ⟨hrtype, hrname, hrparent⟩ := argument_of_receive hr
  rw [htype] at hrtype
  rw [hname] at hrname
  refine ⟨r, hrtype, hrname, hrparent, ?_⟩
  simp only [Routine.action, hr]
  rfl

/-- A call that makes the first control under a name that is no text. -/
structure Misnames (call : Call) (d : Datum) : Prop where
  type : (given call "control_type").isSome = true
  name : given call "name" = some d
  ne_text : ∀ s, d ≠ .text s
  hashable : isCollection d = false
  parent : (given call "parent").getD .null = .null

theorem create_of_ne_text (h : ∀ s, argument r "name" ≠ .text s) (hne : layout ≠ []) :
    (create r layout).2 = layout := by
  obtain ⟨⟨key, c⟩, rest, rfl⟩ := List.exists_cons_of_ne_nil hne
  have hfind : ∃ fault, find? ((key, c) :: rest) (argument r "name") = .error fault := by
    rw [find?, lowered_of_ne_text h]
    cases lowered key with
    | error fault => exact ⟨fault, rfl⟩
    | ok a => exact ⟨_, rfl⟩
  obtain ⟨fault, hfind⟩ := hfind
  rw [create, hfind]
  rfl

theorem create_eq_add (hfind : find? layout (argument r "name") = .ok none)
    (hparent : argument r "parent" = .null) :
    create r layout = add layout ⟨argument r "control_type", argument r "name",
      argument r "content", .null, argument r "width", argument r "height", r.further,
      typeSource? r⟩ := by
  rw [create, hfind, hparent]
  rfl

theorem lookup_nil (name : Datum) : ∃ raised, lookup [] name = .error raised := by
  change ∃ raised, (name.print >>= fun printed => throw _) = .error raised
  cases name.print with
  | error raised => exact ⟨raised, rfl⟩
  | ok printed => exact ⟨_, rfl⟩

theorem host_nil {parent : Datum} (h : parent ≠ .null) :
    ∃ raised, host [] parent = .error raised := by
  obtain ⟨raised, hlookup⟩ := lookup_nil parent
  refine ⟨raised, ?_⟩
  cases parent with
  | null => exact absurd rfl h
  | _ =>
    simp only [host, hlookup]
    rfl

theorem create_nil_keeps
    (h : isCollection (argument r "name") = true ∨ argument r "parent" ≠ .null) :
    (create r []).2 = [] := by
  by_cases hparent : argument r "parent" = .null
  · rw [create_eq_add rfl hparent, add, if_pos (h.resolve_right (absurd hparent))]
  · obtain ⟨fault, hhost⟩ := host_nil hparent
    rw [create, hhost]
    rfl

theorem find?_of_free (htexts : ∀ entry ∈ layout, ∃ s, entry.1 = .text s)
    (hfree : ∀ entry ∈ layout, lowered entry.1 ≠ .ok (Text.lower name)) :
    find? layout (.text name) = .ok none := by
  induction layout with
  | nil => rfl
  | cons entry layout ih =>
    obtain ⟨⟨s, hs⟩, hrest⟩ := List.forall_mem_cons.mp htexts
    obtain ⟨hne, hothers⟩ := List.forall_mem_cons.mp hfree
    have hlower : Text.lower s ≠ Text.lower name := fun he => hne (by rw [hs, lowered, he])
    obtain ⟨key, c⟩ := entry
    obtain rfl : key = .text s := hs
    exact (if_neg hlower).trans (ih hrest hothers)

/-! ## Calls -/

theorem run_misnamed (hcommand : command ∈ commands) (hname : command.name = creator)
    (h : Misnames call d) : Spoiled (command.action.run call []).2 d := by
  obtain ⟨type, htype⟩ := Option.isSome_iff_exists.mp h.type
  obtain ⟨r, -, rfl, hparent, hrun⟩ := creation_run htype h.name []
  refine ⟨?_, h.ne_text⟩
  rw [action_of_creator hcommand hname, hrun, create_eq_add rfl (hparent.trans h.parent)]
  exact ⟨_, rfl, add_snd h.hashable⟩

/-- Any other call keeps the order in which controls were made under texts. -/
theorem run_ordered (h : Ordered layout) (hcommand : command ∈ commands)
    (hnamed : layout = [] → command.name = creator → ∀ d, ¬ Misnames call d) :
    Ordered (command.action.run call layout).2 := by
  by_cases hname : command.name = creator
  · rw [action_of_creator hcommand hname]
    refine h.action fun r hr => ?_
    change Ordered (create r layout).2
    obtain ⟨type, htype⟩ := exists_keyword hr (List.mem_cons_self ..) rfl rfl
    obtain ⟨d, hd⟩ := exists_keyword hr (List.mem_cons_of_mem _ (List.mem_cons_self ..)) rfl rfl
    obtain ⟨-, hown, hparent⟩ := argument_of_receive hr
    rw [show given call "name" = some d from hd, Option.getD_some] at hown
    by_cases htext : ∃ s, d = .text s
    · exact create_ordered h (hown ▸ htext)
    · have hne : ∀ s, argument r "name" ≠ .text s := fun s hs => htext ⟨s, hown ▸ hs⟩
      by_cases hempty : layout = []
      · subst hempty
        rw [create_nil_keeps]
        · exact .nil
        · by_contra hmade
          rw [not_or, not_not, Bool.not_eq_true] at hmade
          exact hnamed rfl hname d ⟨Option.isSome_iff_exists.mpr ⟨type, htype⟩, hd,
            fun s hs => htext ⟨s, hs⟩, hown ▸ hmade.1, hparent.symm.trans hmade.2⟩
      · rw [create_of_ne_text hne hempty]
        exact h
  · exact h.run hcommand fun he => absurd he hname

theorem run_creates (h : Ordered layout) (hcommand : command ∈ commands)
    (hname : command.name = creator) (htype : given call "control_type" = some (.member m))
    (hnamed : given call "name" = some (.text name))
    (hparent : (given call "parent").getD .null = .null) {type : Text}
    (hwritten : m.value.print = .ok type)
    (hfree : ∀ entry ∈ layout, lowered entry.1 ≠ .ok (Text.lower name)) :
    ∃ c : Control, c.name = .text name ∧ command.action.run call layout =
      (.result true ("Created ".toList ++ type ++ " '".toList ++ name ++ "'.".toList),
        layout ++ [(.text name, c)]) := by
  obtain ⟨r, hrtype, hrname, hrparent, hrun⟩ := creation_run htype hnamed layout
  have hfind : find? layout (argument r "name") = .ok none := by
    rw [hrname]
    exact find?_of_free (fun entry hentry => h.exists_text (List.mem_map_of_mem hentry)) hfree
  rw [action_of_creator hcommand hname, hrun, create_eq_add hfind (hrparent.trans hparent), hrtype,
    hrname]
  refine ⟨⟨.member m, .text name, argument r "content", .null, argument r "width",
    argument r "height", r.further, typeSource? r⟩, rfl, ?_⟩
  simp [add, isCollection, created, placeText, typeText, hwritten, Datum.isTruthy, Datum.print,
    saying, bind, Except.bind, pure, Except.pure]

theorem run_refused (h : Spoiled layout d) (hcommand : command ∈ commands)
    (hname : command.name = creator) {type : Datum} (htype : given call "control_type" = some type)
    {name : Datum} (hnamed : given call "name" = some name) :
    command.action.run call layout = (.failed (noAttribute d "lower"), layout) := by
  obtain ⟨r, -, -, -, hrun⟩ := creation_run htype hnamed layout
  rw [action_of_creator hcommand hname, hrun, h.create_eq]

/-! ## Sessions -/

variable {session : Session Layout} {tokens : List Token} {c : Command Layout}

theorem inspection_snd (types : TypeRegistry) :
    ((Inspection.command types).action.run call layout).2 = layout := action_snd fun _ => rfl

theorem exists_creator (h : Calls Plugin.shell session tokens c call) (hname : c.name = creator) :
    ∃ declared ∈ commands, declared.name = creator ∧ c.action = declared.action := by
  obtain ⟨declared, hdeclared, hdname, haction⟩ := Plugin.mem_all_shell h.mem_all
  rcases List.mem_append.mp hdeclared with hdeclared | hdeclared
  · exact ⟨declared, hdeclared, hdname.symm.trans hname, haction⟩
  · rw [List.mem_singleton.mp hdeclared, hname] at hdname
    exact absurd hdname (by decide)

/-- A statement that finds no control calls `New-Control` with a name that is no text. -/
def Spoils (t : Session Layout × List Token) (d : Datum) : Prop :=
  t.1.state = [] ∧ ∃ c call, Calls Plugin.shell t.1 t.2 c call ∧ c.name = creator ∧ Misnames call d

theorem Spoils.state (h : Spoils (session, tokens) d) :
    Spoiled (runStatement Plugin.shell session tokens).session.state d := by
  obtain ⟨hempty, c, call, hcalls, hname, hmisnames⟩ := h
  obtain ⟨declared, hdeclared, hdname, haction⟩ := exists_creator hcalls hname
  rw [hcalls.state_eq, haction, hempty]
  exact run_misnamed hdeclared hdname hmisnames

theorem Ordered.statement (h : Ordered session.state) (hnot : ∀ d, ¬ Spoils (session, tokens) d) :
    Ordered (runStatement Plugin.shell session tokens).session.state := by
  by_cases hcalls : ∃ c call, Calls Plugin.shell session tokens c call
  · obtain ⟨c, call, hcalls⟩ := hcalls
    obtain ⟨declared, hdeclared, hdname, haction⟩ := Plugin.mem_all_shell hcalls.mem_all
    rw [hcalls.state_eq, haction]
    rcases List.mem_append.mp hdeclared with hdeclared | hdeclared
    · exact run_ordered h hdeclared fun hempty hname d hmisnames =>
        hnot d ⟨hempty, c, call, hcalls, hdname.trans hname, hmisnames⟩
    · rw [List.mem_singleton.mp hdeclared, inspection_snd]
      exact h
  · rw [state_eq_of_not_calls hcalls]
    exact h

theorem Spoiled.statement (h : Spoiled session.state d) (tokens : List Token) :
    (runStatement Plugin.shell session tokens).session.state = session.state := by
  by_cases hcalls : ∃ c call, Calls Plugin.shell session tokens c call
  · obtain ⟨c, call, hcalls⟩ := hcalls
    obtain ⟨declared, hdeclared, -, haction⟩ := Plugin.mem_all_shell hcalls.mem_all
    rw [hcalls.state_eq, haction]
    rcases List.mem_append.mp hdeclared with hdeclared | hdeclared
    · exact h.run hdeclared call
    · rw [List.mem_singleton.mp hdeclared, inspection_snd]
  · exact state_eq_of_not_calls hcalls

/-- The line is one call of `New-Control`, with a type, a text as name and no parent. -/
def Makes (session : Session Layout) (line : Text) (m : Member) (name : Text) : Prop :=
  ∃ tokens c call, IsStatement line tokens ∧ Calls Plugin.shell session tokens c call ∧
    c.name = creator ∧ given call "control_type" = some (.member m) ∧
    given call "name" = some (.text name) ∧ (given call "parent").getD .null = .null

theorem Makes.created {line : Text} (hmakes : Makes session line m name)
    (h : Ordered session.state) {type : Text} (hwritten : m.value.print = .ok type)
    (hfree : ∀ entry ∈ session.state, lowered entry.1 ≠ .ok (Text.lower name)) :
    ∃ c : Control, c.name = .text name ∧ runLine Plugin.shell session line =
      .printed (some ("Created ".toList ++ type ++ " '".toList ++ name ++ "'.".toList))
        { session with state := session.state ++ [(.text name, c)] } := by
  obtain ⟨tokens, c, call, hline, hcalls, hname, htype, hnamed, hparent⟩ := hmakes
  obtain ⟨declared, hdeclared, hdname, haction⟩ := exists_creator hcalls hname
  obtain ⟨made, hmade, hrun⟩ := run_creates h hdeclared hdname htype hnamed hparent hwritten hfree
  refine ⟨made, hmade, ?_⟩
  rw [runLine_statement hline hcalls.ne_nil, hcalls.runStatement_eq, haction, hrun]
  exact alone_report_result (by simp)

theorem Makes.refused {line : Text} (hmakes : Makes session line m name)
    (h : Spoiled session.state d) :
    runLine Plugin.shell session line =
      .printed (some (LineFault.failed (noAttribute d "lower")).message) session := by
  obtain ⟨tokens, c, call, hline, hcalls, hname, htype, hnamed, -⟩ := hmakes
  obtain ⟨declared, hdeclared, hdname, haction⟩ := exists_creator hcalls hname
  rw [runLine_statement hline hcalls.ne_nil, hcalls.runStatement_eq, haction,
    run_refused h hdeclared hdname htype hnamed]
  exact alone_report_failed rfl

/-- Over any lines, from no controls on, all controls stand under their own names, which are texts,
and a new name is taken, unless a statement finds no control and calls `New-Control` with a name
that is no text. Then this control is the only one from there on, and each later call of
`New-Control` is refused. -/
theorem session_controls (vars : Variables) (lines : List Text) :
    let session := afterLines Plugin.shell (start vars []) lines
    let ran := visited Plugin.shell (start vars []) lines
    ((∀ t ∈ ran, ∀ d, ¬ Spoils t d) →
      (∀ entry ∈ session.state, entry.2.name = entry.1 ∧ ∃ name, entry.1 = .text name) ∧
      ∀ line m name type, Makes session line m name → m.value.print = .ok type →
        (∀ entry ∈ session.state, lowered entry.1 ≠ .ok (Text.lower name)) →
        ∃ c : Control, c.name = .text name ∧ runLine Plugin.shell session line =
          .printed (some ("Created ".toList ++ type ++ " '".toList ++ name ++ "'.".toList))
            { session with state := session.state ++ [(.text name, c)] }) ∧
    ∀ t ∈ ran, ∀ d, Spoils t d →
      (∃ c : Control, c.name = d ∧ session.state = [(d, c)]) ∧
      ∀ line m name, Makes session line m name → runLine Plugin.shell session line =
        .printed (some (LineFault.failed (noAttribute d "lower")).message) session := by
  intro session ran
  have hchain : Chained Plugin.shell (start vars []) ran session := chained_visited ..
  constructor
  · intro hnone
    obtain ⟨-, hordered⟩ := hchain.keeps (P := Ordered) .nil fun t ht h => h.statement (hnone t ht)
    exact ⟨fun entry hentry => ⟨hordered.name_eq entry hentry,
      hordered.exists_text (List.mem_map_of_mem hentry)⟩,
      fun line m name type hmakes => hmakes.created hordered⟩
  · rintro ⟨found, tokens⟩ ht d hspoils
    obtain ⟨before, later, hsplit⟩ := List.append_of_mem ht
    rw [hsplit] at hchain
    obtain ⟨-, hlater⟩ := hchain.split
    have hspoiled : Spoiled session.state d := by
      cases hlater with
      | cons hrest =>
        exact (hrest.keeps (P := fun layout => Spoiled layout d) hspoils.state fun t _ h =>
          (h.statement t.2).symm ▸ h).2
    exact ⟨hspoiled.single, fun line m name hmakes => hmakes.refused hspoiled⟩

def button : Member := ⟨controlType, "Button".toList, .text "Button".toList⟩

def buttonLine (name : String) : Text :=
  "New-Control -ControlType Button -Name ".toList ++ name.toList

def buttonTokens (name : String) : List Token := (Token.scan (buttonLine name)).dropLast

def buttonName? (made : Command Layout × Call) : Option (Text ⊕ Int) :=
  match given made.2 "control_type", given made.2 "name", given made.2 "parent" with
  | some (.member m), some (.text s), none =>
    if made.1.name = creator && m = button then some (.inl s) else none
  | some (.member m), some (.integer n), none =>
    if made.1.name = creator && m = button then some (.inr n) else none
  | _, _, _ => none

theorem exists_call {name : Text ⊕ Int}
    (h : (call? Plugin.shell session tokens).bind buttonName? = some name) :
    ∃ c call, Calls Plugin.shell session tokens c call ∧ c.name = creator ∧
      given call "control_type" = some (.member button) ∧
      given call "name" = some (name.elim .text .integer) ∧
      (given call "parent").getD .null = .null := by
  obtain ⟨⟨c, call⟩, hcall, hname⟩ := Option.bind_eq_some_iff.mp h
  refine ⟨c, call, calls_of_call? hcall, ?_⟩
  unfold buttonName? at hname
  dsimp only at hname
  split at hname
  case h_3 => cases hname
  all_goals
    rename_i htype hgiven hparent
    obtain ⟨hmade, hsame⟩ := Option.ite_none_right_eq_some.mp hname
    cases hsame
    simp only [Bool.and_eq_true, decide_eq_true_eq] at hmade
    exact ⟨hmade.1, by rw [htype, hmade.2], hgiven, by rw [hparent]; rfl⟩

theorem isStatement_ok : IsStatement (buttonLine "ok") (buttonTokens "ok") :=
  ⟨Token.scan (buttonLine "ok"), by decide +kernel, by decide +kernel⟩

theorem isStatement_number : IsStatement (buttonLine "$n") (buttonTokens "$n") :=
  ⟨Token.scan (buttonLine "$n"), by decide +kernel, by decide +kernel⟩

theorem makes_ok (h : (call? Plugin.shell session (buttonTokens "ok")).bind buttonName? =
    some (.inl "ok".toList)) : Makes session (buttonLine "ok") button "ok".toList := by
  obtain ⟨c, call, hcalls, hmade⟩ := exists_call h
  exact ⟨_, c, call, isStatement_ok, hcalls, hmade⟩

def fresh : Session Layout := start [] []

def counting : Session Layout := afterLines Plugin.shell fresh ["$n = 5".toList]

theorem counting_spoils : Spoils (counting, buttonTokens "$n") (.integer 5) := by
  have hempty : counting.state.isEmpty = true := by
    rw [counting, Plugin.shell_eq]
    decide +kernel
  have hcall : (call? Plugin.shell counting (buttonTokens "$n")).bind buttonName? =
      some (.inr 5) := by
    rw [counting, Plugin.shell_eq]
    decide +kernel
  obtain ⟨c, call, hcalls, hname, htype, hnamed, hparent⟩ := exists_call hcall
  exact ⟨List.isEmpty_iff.mp hempty, c, call, hcalls, hname,
    Option.isSome_iff_exists.mpr ⟨_, htype⟩, hnamed, fun s => nofun, rfl, hparent⟩

theorem session_controls_number :
    let session := afterLines Plugin.shell fresh ["$n = 5".toList, buttonLine "$n"]
    (∃ c : Control, c.name = .text "ok".toList ∧
      runLine Plugin.shell fresh (buttonLine "ok") =
        .printed (some "Created Button 'ok'.".toList)
          { fresh with state := [(.text "ok".toList, c)] }) ∧
    (∃ c : Control, c.name = .integer 5 ∧ session.state = [(.integer 5, c)]) ∧
    runLine Plugin.shell session (buttonLine "ok") =
      .printed (some "[error] AttributeError: 'int' object has no attribute 'lower'".toList)
        session := by
  intro session
  have hfirst : Makes fresh (buttonLine "ok") button "ok".toList :=
    makes_ok (by rw [Plugin.shell_eq]; decide +kernel)
  have hlater : Makes session (buttonLine "ok") button "ok".toList :=
    makes_ok (by rw [show session = _ from rfl, Plugin.shell_eq]; decide +kernel)
  obtain ⟨-, hfree⟩ := (session_controls [] []).1 (by simp [visited])
  obtain ⟨-, hspoiled⟩ := session_controls [] ["$n = 5".toList, buttonLine "$n"]
  have hran : (counting, buttonTokens "$n") ∈
      visited Plugin.shell fresh ["$n = 5".toList, buttonLine "$n"] := by
    refine List.mem_append_right _ (List.mem_append_left _ ?_)
    rw [reached_statement isStatement_number (by decide +kernel)]
    exact List.mem_singleton_self _
  obtain ⟨hsingle, hrefused⟩ := hspoiled _ hran _ counting_spoils
  exact ⟨hfree _ _ _ _ hfirst rfl (fun _ hentry => nomatch hentry), hsingle, hrefused _ _ _ hlater⟩

/-- A number from a variable names the first control; the next is refused. -/
theorem number_not_named :
    let session := afterLines Plugin.shell fresh ["$n = 5".toList, buttonLine "$n"]
    session.state.map (fun entry => entry.1.typeName) = ["int".toList] ∧
      (match runLine Plugin.shell session (buttonLine "ok") with
        | .printed output _ => output
        | _ => none) =
        some "[error] AttributeError: 'int' object has no attribute 'lower'".toList := by
  rw [Plugin.shell_eq]
  constructor <;> decide +kernel

end Layout

end CommandShell
