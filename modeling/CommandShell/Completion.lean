import CommandShell.Binding.Basic
import CommandShell.Command.Registry
import CommandShell.Ranking

/-!
Completion of a line at a cursor: what could stand there, and what it would replace.
-/

set_option autoImplicit false

namespace CommandShell

structure Completion where
  candidates : List Candidate
  start : Nat
  length : Nat
  diagnostics : List Diagnostic
  /-- what a provider was asked, if one was -/
  request : Option PoolRequest

namespace Completion

variable {σ : Type}

structure Context (σ : Type) where
  registry : Registry σ
  types : TypeRegistry
  vars : Variables
  state : σ
  timeout : Timeout
  limit : Int

def nothing (start length : Nat) : Completion := ⟨[], start, length, [], none⟩

def outcome (c : Completion) : Except Raised Completion := Diagnostic.outcome c.diagnostics c

def offering (c : Completion) (ranked : Except Raised (List Candidate)) : Completion :=
  match ranked with
  | .ok candidates => { c with candidates := candidates }
  | .error raised => { c with diagnostics := c.diagnostics ++ [⟨.escaped raised, none⟩] }

def withCursorElement (elements : List Element) (cursor : Nat) : List Element :=
  if elements.any (·.contains cursor) then elements
  else elements.filter (·.stop < cursor) ++ [.value [] cursor cursor]
    ++ elements.filter (cursor ≤ ·.stop)

def dashAsParameter (cursor : Nat) (e : Element) : Element :=
  match e with
  | .value [t] _ stop =>
    match t.text with
    | [c] =>
      if Sign.isDash c && stop == cursor then
        .parameter { t with kind := .parameter, value := [] } stop
      else e
    | _ => e
  | _ => e

def partAt? (e : Element) (cursor : Nat) : Option Token :=
  (e.parts.filter fun t => t.start ≤ cursor && cursor ≤ t.stop).getLast?

/-- The value of a part that the cursor is behind; inside it, what is typed before the cursor
without an opening quote. -/
def wordBefore (line : Text) (part : Option Token) (cursor : Nat) : Text :=
  match part with
  | none => []
  | some t =>
    if t.stop ≤ cursor then t.value
    else match Text.slice line t.start cursor with
      | c :: rest => if c == '\'' || c == '"' then rest else c :: rest
      | [] => []

def typedUpTo (line : Text) (e : Element) (cursor : Nat) : Text :=
  if e.parts.isEmpty then [] else Text.slice line e.start cursor

def builtIn : List Text := ["help", "exit", "quit", "clear", "cls"].map (·.toList)

def commandNames (context : Context σ) (line : Text) (e : Element) (cursor : Nat) : Completion :=
  let verbs := builtIn.map fun name =>
    PoolEntry.item (.text name) none (some "built-in".toList)
  let names := context.registry.names.map fun name =>
    PoolEntry.item (.text name) none ((context.registry.get? name).map (·.description))
  (nothing e.start (e.stop - e.start)).offering
    (Ranking.rank (verbs ++ names) (typedUpTo line e cursor) none .command true
      (some context.limit))

def helpTargets (context : Context σ) (line : Text) (e : Element) (cursor : Nat) : Completion :=
  let pool := context.registry.categories.map (·.1) ++ context.registry.names ++ ["all".toList]
  (nothing e.start (e.stop - e.start)).offering
    (Ranking.rank (pool.map fun name => .plain (.text name)) (typedUpTo line e cursor) none
      .command true (some context.limit))

/-- Parameters that the command still accepts, and the one that the element has claimed. -/
def offered (c : Command σ) (b : Binding) : List Parameter :=
  let current := match b.inUse with
    | some (.name name) => c.parameter? name
    | _ => none
  b.available ++ (current.filter fun p => !b.available.contains p).toList

def parameterTooltip (p : Parameter) : Text :=
  if !p.description.isEmpty then p.description
  else if p.isSwitch then "switch".toList
  else '[' :: p.type.name ++ [']']

def nameEnd (e : Element) : Nat := e.start + 1 + e.text.length

def parameterNames (context : Context σ) (line : Text) (e : Element) (cursor : Nat)
    (command : Option (Command σ)) (b : Binding) : Completion :=
  let typed := Text.slice line (e.start + 1) (min cursor (nameEnd e))
  let span := nothing e.start (nameEnd e - e.start)
  match command with
  | none => span
  | some c =>
    let pool := (c.parameters.filter fun p => (offered c b).contains p).map fun p =>
      PoolEntry.item (.text ('-' :: p.name)) none (some (parameterTooltip p))
    span.offering
      (Ranking.rank pool ('-' :: typed) none .parameterName false (some context.limit))

def memberNameLength : Nat → Text → Nat
  | 0, _ => 0
  | fuel + 1, s =>
    let (sign, rest) : Nat × Text := match s with
      | ':' :: ':' :: rest => (2, rest)
      | '.' :: rest => (1, rest)
      | _ => (0, s)
    if sign = 0 then 0
    else
      let word := rest.takeWhile Text.isWord
      sign + word.length + memberNameLength fuel (rest.drop word.length)

def memberName? (e : Element) : Option Nat :=
  match memberNameLength e.raw.length e.raw with
  | 0 => none
  | n + 1 => some (n + 1)

/-- The members of an owner; a name with several kinds is offered with each. -/
def memberPool (owner : OwnerType) (typed separator : Text) : List PoolEntry :=
  let groups := owner.members.foldl (fun (groups : Entries Text (List Attachable)) m =>
    groups.set (Text.lower m.name) (((groups.get? (Text.lower m.name)).getD []) ++ [m])) []
  groups.flatMap fun (_, members) => members.map fun m =>
    let suffix := if members.length > 1 then m.kind.label else []
    .item (.text ('-' :: typed ++ separator ++ m.name ++ suffix)) none
      (some (m.kind.label ++ " [".toList ++ m.type.name ++ [']']))

def memberNames (context : Context σ) (line : Text) (parameter adjacent : Element)
    (length cursor : Nat) : Completion :=
  let stop := adjacent.start + length
  let span := nothing parameter.start (stop - parameter.start)
  let typed := parameter.text ++ Text.slice line adjacent.start (min cursor stop)
  match Owner.splitName? typed with
  | none => span
  | some (ownerName, _) =>
    match context.types.resolve ownerName with
    | none => span
    | some owner =>
      let separator :=
        if Text.startsWith (typed.drop ownerName.length) [':', ':'] then [':', ':'] else ['.']
      span.offering (Ranking.rank (memberPool owner ownerName separator) ('-' :: typed) none
        .attachedMember false (some context.limit))

structure ValueSpan where
  start : Nat
  length : Nat
  word : Text

def inlineSpan (line : Text) (e : Element) (cursor start : Nat) : ValueSpan :=
  ⟨start, e.stop - start, Text.slice line start cursor⟩

def partSpan (line : Text) (e : Element) (cursor : Nat) : ValueSpan :=
  let part := partAt? e cursor
  match part with
  | none => ⟨cursor, 0, []⟩
  | some t => ⟨t.start, t.text.length, wordBefore line part cursor⟩

def withPool (context : Context σ) (span : ValueSpan) (pool : List PoolEntry) (quotes : Bool)
    (c : Completion) : Completion :=
  c.offering (Ranking.rank pool span.word none .parameterValue quotes (some context.limit))

def withDomain (context : Context σ) (span : ValueSpan) (type : ValueType) (c : Completion) :
    Completion :=
  withPool context span (type.domain.1.map .plain) type.domain.2 c

def requestFor (context : Context σ) (c : Command σ) (p : Parameter) (b : Binding) (word : Text) :
    PoolRequest :=
  ⟨c.name, p.name, b.supplied, (Ranking.sentinel word).1, context.vars, false⟩

/-- The values of the parameter in use: those of the type of an attached member, those that a
provider supplies, or those of the parameter's type. -/
def values (context : Context σ) (command : Option (Command σ)) (b : Binding)
    (span : ValueSpan) : Completion :=
  let result := nothing span.start span.length
  match b.inUse with
  | some (.name key) =>
    match b.attached.get? key, command with
    | some m, _ => withDomain context span m.member.type result
    | none, none => withPool context span [] true result
    | none, some c =>
      match c.parameter? key with
      | none => result
      | some p =>
        match c.completer? p.name with
        | none => withDomain context span p.type result
        | some provider =>
          let request := requestFor context c p b span.word
          let (pool, noted) := Pool.get provider request context.state context.timeout none
          withPool context span pool true
            { result with diagnostics := noted, request := some request }
  | _ => result

def argument (context : Context σ) (line : Text) (cursor : Nat) (elements : List Element)
    (command previous e : Element) : Completion :=
  let c := context.registry.get? command.text
  let b := Binding.bindInvocation elements cursor (some context.registry.describe)
    (some context.types)
  let member :=
    if !e.isParameter && previous.isParameter && previous.stop == e.start
      && previous.inline.isNone then memberName? e else none
  let result := match member with
    | some length =>
      if cursor ≤ e.start + length then memberNames context line previous e length cursor
      else values context c b (inlineSpan line e cursor (e.start + length + 1))
    | none =>
      if e.isParameter then
        if cursor ≤ nameEnd e then parameterNames context line e cursor c b
        else values context c b (inlineSpan line e cursor (nameEnd e + 1))
      else values context c b (partSpan line e cursor)
  { result with diagnostics := b.errors ++ result.diagnostics }

def completeAt (context : Context σ) (line : Text) (cursor : Nat) : Completion :=
  let statement := Statement.at? (Token.scan line) cursor
  let elements := (withCursorElement (Element.ofTokens statement) cursor).map
    (dashAsParameter cursor)
  match Element.indexAt? elements cursor, elements with
  | some index, command :: _ =>
    match elements[index]?, elements[index - 1]? with
    | some e, some previous =>
      if index = 0 then commandNames context line e cursor
      else if index = 1 && Text.lower command.text = "help".toList && !e.isParameter then
        helpTargets context line e cursor
      else argument context line cursor elements command previous e
    | _, _ => nothing cursor 0
  | _, _ => nothing cursor 0

/-- Completes a line; a cursor outside it counts as at its nearest end. -/
def complete (context : Context σ) (line : Text) (cursor : Int) : Completion :=
  completeAt context line (min cursor.toNat line.length)

def texts (c : Completion) : List Text := c.candidates.map (·.insertion)

def wordStart (line : Text) : Nat :=
  line.length - (line.reverse.takeWhile fun c => !(c == ' ' || c == '\t' || c == '\n')).length

/-- Replacements for the whole last word of a line that is completed at its end. -/
def suggest (context : Context σ) (line : Text) : List Text :=
  let result := complete context line line.length
  let lead := Text.slice line (wordStart line) result.start
  result.texts.map (lead ++ ·)

end Completion

end CommandShell
