import CommandShell.Proofs.Completion.Name
import CommandShell.Proofs.Quoting.RoundTrip
import CommandShell.Proofs.Session.Dispatch
import CommandShell.Proofs.Session.Help

/-!
The names that are offered are names that work. What is offered in the place of a command names a
verb or a registered command once it is quoted and read back, and what is offered behind `help` is
something that help has an answer to.
-/

set_option autoImplicit false

namespace CommandShell

namespace Session

open Binding

variable {σ : Type} {shell : Shell σ} {session : Session σ}

theorem exists_target (hr : shell.registry.Registered) {command : Element}
    (h : (Verb.of? command.text).isSome = true ∨
      (shell.registry.get? command.text).isSome = true) (session : Session σ)
    (elements : List Element) :
    ∃ target : Target σ, target.Named shell.registry command.text ∧
      dispatch shell session command elements = perform shell session elements target := by
  cases hverb : Verb.of? command.text with
  | some v => exact ⟨.verb v, .verb (Verb.of?_eq_some.mp hverb), perform_verb v elements hverb⟩
  | none =>
    obtain ⟨c, hc⟩ := Option.isSome_iff_exists.mp (h.resolve_left (by simp [hverb]))
    obtain ⟨hmem, hnamed⟩ := hr.keyed.get?_isNamed hc
    refine ⟨.command c, .command hmem hnamed, ?_⟩
    rw [dispatch, hverb]
    dsimp only
    rw [hc]
    rfl

theorem runLine_values (shell : Shell σ) (v : Text) (vs : List Text) :
    ∃ e es, (e :: es).map Element.text = v :: vs ∧ ∀ session : Session σ,
      runLine shell session (Quoting.line (v :: vs)) =
        (dispatch shell session e (e :: es)).alone := by
  obtain ⟨ts, n, hscan, harguments, hvalues⟩ := Quoting.exists_arguments_line (v :: vs)
  cases ts with
  | nil => cases hvalues
  | cons t ts =>
    obtain ⟨ht, hts⟩ := List.forall_mem_cons.mp harguments
    refine ⟨Element.ofToken t, ts.map Element.ofToken, ?_, fun session => ?_⟩
    · rw [← hvalues, List.map_cons, List.map_map, List.map_cons, Element.ofToken_text]
      simp only [Function.comp_def, Element.ofToken_text]
    · rw [runLine_operands hscan fun u hu => (harguments u hu).isOperand,
        runStatement_operands ht fun u hu => (hts u hu).isOperand]

theorem runLine_name (hr : shell.registry.Registered) {name : Text}
    (h : (Verb.of? name).isSome = true ∨ (shell.registry.get? name).isSome = true)
    (session : Session σ) :
    ∃ (e : Element) (target : Target σ), e.text = name ∧ target.Named shell.registry name ∧
      runLine shell session (Quoting.quoteIfNeeded name) =
        (perform shell session [e] target).alone := by
  obtain ⟨e, es, htexts, hrun⟩ := runLine_values shell name []
  obtain ⟨rfl, hes⟩ := List.cons.inj htexts
  obtain rfl := List.map_eq_nil_iff.mp hes
  obtain ⟨target, hnamed, hdispatch⟩ := exists_target hr h session [e]
  refine ⟨e, target, rfl, hnamed, ?_⟩
  rw [← hdispatch, ← hrun, Quoting.line_cons, Quoting.spaced, List.flatMap_nil, List.append_nil]

theorem runLine_help (name : Text) (session : Session σ) :
    runLine shell session ("help ".toList ++ Quoting.quoteIfNeeded name) =
      .printed (some (Help.on shell.registry name)) session := by
  obtain ⟨e, es, htexts, hrun⟩ := runLine_values shell "help".toList [name]
  obtain ⟨he, hes⟩ := List.cons.inj htexts
  obtain ⟨target, rfl, rfl⟩ := List.map_eq_singleton_iff.mp hes
  have hverb : Verb.of? e.text = some .help := by rw [he]; decide
  have hhelp : Quoting.quoteIfNeeded "help".toList = "help".toList := by decide +kernel
  have hline : "help ".toList ++ Quoting.quoteIfNeeded target.text =
      Quoting.line ["help".toList, target.text] := by
    rw [Quoting.line_cons, hhelp, Quoting.spaced, List.flatMap_singleton]
    rfl
  rw [hline, hrun, perform_verb .help _ hverb]
  simp [perform, Ran.alone, joined, Text.join_cons]

end Session

namespace Completion

variable {σ : Type} {context : Context σ} {line : Text} {cursor : Nat}

/-- The cursor is on the name of the command, or where one would stand. -/
def AtCommand (line : Text) (cursor : Nat) : Prop :=
  Element.indexAt? (elementsAt line cursor) cursor = some 0

/-- The cursor is on what stands behind `help`, in any case, and that is no parameter. -/
def AtHelpTarget (line : Text) (cursor : Nat) : Prop :=
  Element.indexAt? (elementsAt line cursor) cursor = some 1 ∧
    ∃ command e rest, elementsAt line cursor = command :: e :: rest ∧
      Text.lower command.text = "help".toList ∧ e.isParameter = false

theorem completeAt_command (context : Context σ) (h : AtCommand line cursor) :
    ∃ e, completeAt context line cursor = commandNames context line e cursor := by
  unfold AtCommand elementsAt at h
  unfold completeAt
  dsimp only
  generalize (withCursorElement (Element.ofTokens (Statement.at? (Token.scan line) cursor))
    cursor).map (dashAsParameter cursor) = elements at h ⊢
  obtain ⟨e, he, -⟩ := Element.contains_of_indexAt? h
  obtain ⟨rest, rfl⟩ := List.head?_eq_some_iff.mp (List.head?_eq_getElem? ▸ he)
  rw [h]
  exact ⟨e, rfl⟩

theorem completeAt_helpTarget (context : Context σ) (h : AtHelpTarget line cursor) :
    ∃ e, completeAt context line cursor = helpTargets context line e cursor := by
  obtain ⟨hindex, command, e, rest, helements, hhelp, he⟩ := h
  unfold elementsAt at hindex helements
  unfold completeAt
  dsimp only
  rw [helements] at hindex ⊢
  rw [hindex]
  refine ⟨e, ?_⟩
  simp [hhelp, he]

variable {x : Candidate} {e : Element}

theorem exists_name_of_command (hr : context.registry.Registered)
    (hx : x ∈ (commandNames context line e cursor).candidates) :
    ∃ name, x.insertion = Quoting.quoteIfNeeded name ∧
      ((Session.Verb.of? name).isSome = true ∨ (context.registry.get? name).isSome = true) := by
  obtain ⟨candidates, hrank, hx⟩ := mem_offering rfl hx
  obtain ⟨-, entry, hentry, text, htext, hinsertion⟩ := Ranking.exists_of_mem_rank hrank hx
  rw [if_pos rfl] at hinsertion
  rcases List.mem_append.mp hentry with hentry | hentry
  · have hverbs : ∀ name ∈ builtIn, (Session.Verb.of? name).isSome = true := by decide +kernel
    obtain ⟨name, hname, rfl⟩ := List.mem_map.mp hentry
    obtain rfl : name = text := Except.ok.inj htext
    exact ⟨name, hinsertion, .inl (hverbs name hname)⟩
  · obtain ⟨name, hname, rfl⟩ := List.mem_map.mp hentry
    obtain rfl : name = text := Except.ok.inj htext
    exact ⟨name, hinsertion, .inr (hr.isSome_get? hname)⟩

theorem exists_name_of_helpTarget (hr : context.registry.Registered)
    (hx : x ∈ (helpTargets context line e cursor).candidates) :
    ∃ name, x.insertion = Quoting.quoteIfNeeded name ∧ Help.Known context.registry name := by
  obtain ⟨candidates, hrank, hx⟩ := mem_offering rfl hx
  obtain ⟨-, entry, hentry, text, htext, hinsertion⟩ := Ranking.exists_of_mem_rank hrank hx
  rw [if_pos rfl] at hinsertion
  obtain ⟨name, hname, rfl⟩ := List.mem_map.mp hentry
  obtain rfl : name = text := Except.ok.inj htext
  refine ⟨name, hinsertion, ?_⟩
  rcases List.mem_append.mp hname with hname | hname
  · rcases List.mem_append.mp hname with hname | hname
    · exact .inr (.inl (Entries.isSome_get?.mpr hname))
    · exact .inl (hr.isSome_get? hname)
  · exact .inr (.inr (List.mem_singleton.mp hname))

end Completion

namespace Session

open Completion

variable {σ : Type}

/-- What is offered for a command runs a verb or a registered command when it is a line of its own.
What is offered behind `help` is, behind `help` on a line, answered with what the name stands for. -/
theorem runLine_offered {context : Completion.Context σ} {shell : Shell σ}
    (hr : shell.registry.Registered) (hsame : context.registry = shell.registry)
    (session : Session σ) {line : Text} {position : Int} {x : Candidate}
    (hx : x ∈ (complete context line position).candidates) :
    let cursor := min position.toNat line.length
    (AtCommand line cursor → ∃ (name : Text) (e : Element) (target : Target σ),
      x.insertion = Quoting.quoteIfNeeded name ∧ e.text = name ∧
      target.Named shell.registry name ∧
      runLine shell session x.insertion = (perform shell session [e] target).alone) ∧
    (AtHelpTarget line cursor → ∃ name,
      x.insertion = Quoting.quoteIfNeeded name ∧ Help.Known shell.registry name ∧
      runLine shell session ("help ".toList ++ x.insertion) =
        .printed (some (Help.on shell.registry name)) session ∧
      Text.startsWith (Help.on shell.registry name) Help.nothingKnown = false) := by
  intro cursor
  have hc : context.registry.Registered := hsame ▸ hr
  constructor
  · intro hat
    obtain ⟨e, he⟩ := completeAt_command context hat
    rw [complete, he] at hx
    obtain ⟨name, hinsertion, hname⟩ := exists_name_of_command hc hx
    rw [hsame] at hname
    obtain ⟨command, target, htext, hnamed, hrun⟩ := runLine_name hr hname session
    exact ⟨name, command, target, hinsertion, htext, hnamed, hinsertion ▸ hrun⟩
  · intro hat
    obtain ⟨e, he⟩ := completeAt_helpTarget context hat
    rw [complete, he] at hx
    obtain ⟨name, hinsertion, hknown⟩ := exists_name_of_helpTarget hc hx
    rw [hsame] at hknown
    refine ⟨name, hinsertion, hknown, hinsertion ▸ runLine_help name session, ?_⟩
    exact Bool.eq_false_iff.mpr fun h => Help.startsWith_on.mp h hknown

def letsGo : Command (Unit × List Call) := { go [] with aliases := ["let's go".toList] }

theorem runLine_offered_letsGo :
    let shell : Shell (Unit × List Call) := ⟨(Registry.empty.register letsGo).1, TypeRegistry.empty⟩
    let context : Completion.Context (Unit × List Call) :=
      ⟨shell.registry, shell.types, [], ((), []), .whole 1, 50⟩
    let session : Session (Unit × List Call) := start [] ((), [])
    (∃ (e : Element) (target : Target (Unit × List Call)),
        "'let''s go'".toList ∈ (complete context "Let".toList 3).texts ∧
        target.Named shell.registry e.text ∧
        runLine shell session "'let''s go'".toList = (perform shell session [e] target).alone) ∧
      "general".toList ∈ (complete context "help gen".toList 8).texts ∧
        ∃ output, runLine shell session "help general".toList = .printed (some output) session ∧
          Text.startsWith output Help.nothingKnown = false := by
  intro shell context session
  have hr : shell.registry.Registered := .register _ .empty
  have hcommand : "'let''s go'".toList ∈ (complete context "Let".toList 3).texts := by
    decide +kernel
  have hhelp : "general".toList ∈ (complete context "help gen".toList 8).texts := by decide +kernel
  have helements : elementsAt "help gen".toList 8 =
      [.value [⟨.bare, "help".toList, "help".toList, 0, none, true⟩] 0 4,
        .value [⟨.bare, "gen".toList, "gen".toList, 5, none, true⟩] 5 8] := by decide +kernel
  refine ⟨?_, hhelp, ?_⟩
  · have hat : Element.indexAt? (elementsAt "Let".toList 3) 3 = some 0 := by decide +kernel
    obtain ⟨x, hx, hinsertion⟩ := List.mem_map.mp hcommand
    obtain ⟨name, e, target, -, rfl, hnamed, hrun⟩ := (runLine_offered hr rfl session hx).1 hat
    exact ⟨e, target, hcommand, hnamed, hinsertion ▸ hrun⟩
  · obtain ⟨x, hx, hinsertion⟩ := List.mem_map.mp hhelp
    have hindex : Element.indexAt? (elementsAt "help gen".toList 8) 8 = some 1 := by decide +kernel
    obtain ⟨name, -, -, hrun, hanswer⟩ := (runLine_offered hr rfl session hx).2
      ⟨hindex, _, _, _, helements, by decide +kernel, rfl⟩
    rw [hinsertion] at hrun
    exact ⟨_, hrun, hanswer⟩

end Session

end CommandShell
