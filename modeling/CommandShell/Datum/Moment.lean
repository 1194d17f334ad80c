import CommandShell.Number.Numeral

/-!
Dates and times of day: how they are written, and how they are printed and shown.
-/

set_option autoImplicit false

namespace CommandShell

structure Date where
  year : Nat
  month : Nat
  day : Nat
  deriving DecidableEq

structure Clock where
  hour : Nat
  minute : Nat
  second : Nat
  micros : Nat
  deriving DecidableEq

/-- A date, a time of day, or both; then it may tell how many minutes it is ahead of universal
time. -/
inductive Moment where
  | ofDate (date : Date)
  | ofClock (clock : Clock)
  | instant (date : Date) (clock : Clock) (ahead : Option Int)
  deriving DecidableEq

namespace Moment

/-! ## Reading -/

def digits? (count : Nat) (s : Text) : Option (Nat × Text) :=
  let digits := s.take count
  if digits.length = count && digits.all Char.isDigit then
    some (Numeral.value (digits.map fun c => c.toNat - 48), s.drop count)
  else none

def sign? (c : Char) : Text → Option Text
  | d :: s => if d == c then some s else none
  | [] => none

def isLeap (year : Nat) : Bool := year % 4 = 0 && (year % 100 ≠ 0 || year % 400 = 0)

def daysOf (year month : Nat) : Nat :=
  if month = 2 then if isLeap year then 29 else 28
  else if month = 4 || month = 6 || month = 9 || month = 11 then 30
  else 31

def date? (s : Text) : Option (Date × Text) := do
  let (year, s) ← digits? 4 s
  let (month, s) ← digits? 2 (← sign? '-' s)
  let (day, s) ← digits? 2 (← sign? '-' s)
  if 1 ≤ year && 1 ≤ month && month ≤ 12 && 1 ≤ day && day ≤ daysOf year month then
    some (⟨year, month, day⟩, s)
  else none

/-- A fraction of a second, in microseconds; further digits are dropped. -/
def micros (s : Text) : Nat × Text :=
  match s with
  | '.' :: rest =>
    match rest.takeWhile Char.isDigit with
    | [] => (0, s)
    | digits =>
      let six := (digits ++ Text.repeated 6 '0').take 6
      (Numeral.value (six.map fun c => c.toNat - 48), rest.dropWhile Char.isDigit)
  | _ => (0, s)

def hourMinute? (s : Text) : Option (Nat × Nat × Text) := do
  let (hour, s) ← digits? 2 s
  let (minute, s) ← digits? 2 (← sign? ':' s)
  if hour < 24 && minute < 60 then some (hour, minute, s) else none

def clock? (s : Text) : Option (Clock × Text) := do
  let (hour, minute, s) ← hourMinute? s
  let (second, s) ← digits? 2 (← sign? ':' s)
  if second < 60 then
    let (micros, s) := micros s
    some (⟨hour, minute, second, micros⟩, s)
  else none

def ahead? (s : Text) : Option (Int × Text) :=
  match s with
  | c :: rest =>
    if c == 'Z' || c == 'z' then some (0, rest)
    else if c == '+' || c == '-' then
      (hourMinute? rest).map fun (hours, minutes, rest) =>
        (Numeral.signed (c == '-') (60 * hours + minutes), rest)
    else none
  | [] => none

def startsClock (c : Char) : Bool := c == 'T' || c == 't' || c == ' '

def timeAfter? : Text → Option (Clock × Text)
  | c :: s => if startsClock c then clock? s else none
  | [] => none

def read? (s : Text) : Option (Moment × Text) :=
  match date? s with
  | none => (clock? s).map fun (clock, rest) => (.ofClock clock, rest)
  | some (date, rest) =>
    match timeAfter? rest with
    | none => some (.ofDate date, rest)
    | some (clock, rest) =>
      match ahead? rest with
      | none => some (.instant date clock none, rest)
      | some (ahead, rest) => some (.instant date clock (some ahead), rest)

/-! ## Printing -/

def padded (width n : Nat) : Text :=
  let digits := Text.ofNat n
  Text.repeated (width - digits.length) '0' ++ digits

def dateText (d : Date) : Text :=
  padded 4 d.year ++ '-' :: padded 2 d.month ++ '-' :: padded 2 d.day

def clockText (c : Clock) : Text :=
  padded 2 c.hour ++ ':' :: padded 2 c.minute ++ ':' :: padded 2 c.second
    ++ if c.micros = 0 then [] else '.' :: padded 6 c.micros

def aheadText (minutes : Int) : Text :=
  (if minutes < 0 then '-' else '+') :: padded 2 (minutes.natAbs / 60)
    ++ ':' :: padded 2 (minutes.natAbs % 60)

def print : Moment → Text
  | .ofDate date => dateText date
  | .ofClock clock => clockText clock
  | .instant date clock ahead =>
    dateText date ++ ' ' :: clockText clock ++ (ahead.map aheadText).getD []

def typeName : Moment → Text
  | .ofDate _ => "date".toList
  | .ofClock _ => "time".toList
  | .instant _ _ _ => "datetime".toList

def dateParts (d : Date) : List Nat := [d.year, d.month, d.day]

def clockParts (c : Clock) : List Nat :=
  [c.hour, c.minute] ++
    if c.micros ≠ 0 then [c.second, c.micros] else if c.second ≠ 0 then [c.second] else []

/-- A distance from universal time; one to the west counts on from the day before. -/
def zoneText (minutes : Int) : Text :=
  if minutes = 0 then "datetime.timezone.utc".toList
  else
    "datetime.timezone(datetime.timedelta(".toList ++
      (if minutes < 0 then "days=-1, seconds=".toList ++ Text.ofInt (86400 + 60 * minutes)
      else "seconds=".toList ++ Text.ofInt (60 * minutes)) ++ "))".toList

def shown (m : Moment) : Text :=
  let parts := match m with
    | .ofDate date => (dateParts date).map Text.ofNat
    | .ofClock clock => (clockParts clock).map Text.ofNat
    | .instant date clock ahead =>
      (dateParts date ++ clockParts clock).map Text.ofNat
        ++ (ahead.map fun minutes => "tzinfo=".toList ++ zoneText minutes).toList
  "datetime.".toList ++ m.typeName ++ '(' :: Text.join ", ".toList parts ++ [')']

end Moment

end CommandShell
