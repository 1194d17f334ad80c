import CommandShell.Argument
import CommandShell.Diagnostic

/-!
Candidate pools: what a provider is asked, what it supplies, and what is taken of that.
-/

set_option autoImplicit false

namespace CommandShell

inductive PoolEntry where
  | plain (d : Datum)
  | item (value : Datum) (display tooltip : Option Text)

namespace PoolEntry

def value : PoolEntry → Datum
  | .plain d => d
  | .item d _ _ => d

def tooltip : PoolEntry → Option Text
  | .plain _ => none
  | .item _ _ tooltip => tooltip

def insertion (entry : PoolEntry) : Except Raised Text :=
  match entry.value with
  | .member m => .ok m.typed
  | d => d.print

def display : PoolEntry → Except Raised Text
  | .plain (.member m) => .ok m.typed
  | .plain d => d.print
  | .item _ (some shown) _ => .ok shown
  | .item d none _ => d.print

end PoolEntry

structure PoolRequest where
  command : Text
  parameter : Text
  supplied : Entries Text Argument
  /-- what is typed of the value, without a sort sentinel -/
  word : Text
  vars : Variables
  /-- the caller has given up on the request -/
  cancelled : Bool

def PoolRequest.bound? (r : PoolRequest) (name : Text) : Option Datum :=
  (r.supplied.find? fun entry => Text.lower entry.1 = Text.lower name).map
    (·.2.resolve r.vars)

def PoolRequest.bound (r : PoolRequest) (name : Text) (fallback : Datum) : Datum :=
  (r.bound? name).getD fallback

/-- How a supply ends. One that never ends waits until it is cancelled. -/
inductive Ending where
  | finished
  | failed (raised : Raised)
  | never

inductive Supply where
  | finite (entries : List PoolEntry) (ending : Ending)
  | endless (entry : Nat → PoolEntry)

/-- Whatever offers the values of a parameter, given the state that commands act on. -/
abbrev Provider (σ : Type) := PoolRequest → σ → Supply

inductive Timeout where
  | whole (seconds : Int)
  | exact (seconds : Binary64)

namespace Timeout

def seconds : Timeout → Binary64
  | .whole n => Binary64.ofInt n
  | .exact x => x

/-- Waits are measured in billionths of a second, and from this many seconds on there are too many
of those. -/
def tooLong : Nat := 9223372037

def fault? (t : Timeout) : Option Fault :=
  if !t.seconds.isAtLeast tooLong then none
  else match t with
    | .whole _ => some ⟨.overflow, "timestamp too large to convert to C _PyTime_t".toList⟩
    | .exact _ => some ⟨.overflow, "timestamp out of range for platform time_t".toList⟩

end Timeout

namespace Pool

/-- The entries taken at most: a limit is looked at after each entry. -/
def atMost (limit : Int) : Nat := max limit.toNat 1

def waited (parameter : Text) (timeout : Timeout) : List PoolEntry × List Diagnostic :=
  match timeout.fault? with
  | some fault => ([], [⟨.providerFailure parameter fault, none⟩])
  | none => ([], [⟨.providerTimeout parameter timeout.seconds.briefText, none⟩])

def ended (entries : List PoolEntry) (parameter : Text) (timeout : Timeout) (cancelled : Bool) :
    Ending → List PoolEntry × List Diagnostic
  | .finished => (entries, [])
  | .failed raised => ([], [⟨.tell (.providerFailure parameter) raised, none⟩])
  | .never => if cancelled then (entries, []) else waited parameter timeout

/-- The entries of a supply, up to a limit. A failure leaves none, and so does a request that was
given up before an entry came. -/
def collect (parameter : Text) (timeout : Timeout) (limit : Option Int) (cancelled : Bool) :
    Supply → List PoolEntry × List Diagnostic
  | .endless entry =>
    if cancelled then ([], [])
    else match limit with
      | some limit => ((List.range (atMost limit)).map entry, [])
      | none => waited parameter timeout
  | .finite [] ending => ended [] parameter timeout cancelled ending
  | .finite entries ending =>
    if cancelled then ([], [])
    else match limit with
      | some limit =>
        if atMost limit ≤ entries.length then (entries.take (atMost limit), [])
        else ended entries parameter timeout false ending
      | none => ended entries parameter timeout false ending

def get {σ : Type} (provider : Provider σ) (request : PoolRequest) (state : σ)
    (timeout : Timeout) (limit : Option Int) : List PoolEntry × List Diagnostic :=
  collect request.parameter timeout limit request.cancelled (provider request state)

def isTimeout (d : Diagnostic) : Bool :=
  match d.cause with
  | .providerTimeout .. => true
  | _ => false

end Pool

end CommandShell
