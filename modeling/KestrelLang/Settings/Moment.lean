import KestrelLang.Number.Reading

/-! # Dates and times of day

* `Moment.Fault` — why a text is no date or time.
* `Moment.Day`, `Moment.daysIn` — a day of the calendar.
* `Moment.readDay`, `Moment.readClock`, `Moment.readZone` — the parts of a date with a time, each with
  what follows it.
* `Moment.isLoose` — a date, alone or with a time, whose parts may have one digit.
* `Moment.strictFault?` — why a text with parts of two digits is no date, no time and not both.

A day is checked against its month only when everything else has been read. -/

namespace KestrelLang.Moment

inductive Fault where
  | malformed | month | day | hour | minute | second | zoneHour | zoneMinute
  deriving DecidableEq, Repr, Inhabited

def Fault.part : Fault → String
  | .malformed => "text"
  | .month => "month"
  | .day => "day"
  | .hour => "hour"
  | .minute => "minute"
  | .second => "second"
  | .zoneHour => "time zone offset hour"
  | .zoneMinute => "time zone offset minute"

/-! ## Parts -/

def daysIn (year month : Nat) : Nat :=
  match month with
  | 2 => if year % 4 = 0 ∧ (year % 100 ≠ 0 ∨ year % 400 = 0) then 29 else 28
  | 4 | 6 | 9 | 11 => 30
  | _ => 31

structure Day where
  year : Nat
  month : Nat
  day : Nat
  deriving DecidableEq, Repr, Inhabited

def Day.exists (d : Day) : Bool := 1 ≤ d.day && d.day ≤ daysIn d.year d.month

def readNumber : List Char → Except Fault (Nat × List Char)
  | a :: b :: cs =>
    if !a.isDigit then .error .malformed
    else if b.isDigit then .ok (Number.digitsValue [a, b], cs)
    else .ok (Number.digitsValue [a], b :: cs)
  | [a] => if a.isDigit then .ok (Number.digitsValue [a], []) else .error .malformed
  | [] => .error .malformed

def expect (x : Char) : List Char → Except Fault (List Char)
  | c :: cs => if c = x then .ok cs else .error .malformed
  | [] => .error .malformed

def readBelow (limit : Nat) (fault : Fault) (cs : List Char) : Except Fault (List Char) := do
  let (n, cs) ← readNumber cs
  if limit ≤ n then .error fault else return cs

/-- A day: a year of four digits, a month and a day, with hyphens between. -/
def readDay (cs : List Char) : Except Fault (Day × List Char) := do
  let year := cs.take 4
  if year.length ≠ 4 || !year.all Char.isDigit then throw .malformed
  let cs ← expect '-' (cs.drop 4)
  let (month, cs) ← readNumber cs
  if month < 1 || 12 < month then throw .month
  let cs ← expect '-' cs
  let (day, cs) ← readNumber cs
  return (⟨Number.digitsValue year, month, day⟩, cs)

/-- What follows a fraction of a second, if there is one. -/
def passFraction : List Char → List Char
  | p :: d :: cs =>
    if (p = '.' || p = ',') && d.isDigit then cs.dropWhile Char.isDigit else p :: d :: cs
  | cs => cs

/-- A time of day: hour, minute and second with colons between, and perhaps a fraction. -/
def readClock (cs : List Char) : Except Fault (List Char) := do
  let cs ← readBelow 24 .hour cs
  let cs ← expect ':' cs
  let cs ← readBelow 60 .minute cs
  let cs ← expect ':' cs
  let cs ← readBelow 60 .second cs
  return passFraction cs

/-- A time zone: the letter `Z`, or a sign with hours and minutes of two digits. -/
def readZone : List Char → Except Fault (List Char)
  | 'Z' :: cs => .ok cs
  | sign :: a :: b :: ':' :: c :: d :: cs =>
    if !([a, b, c, d].all Char.isDigit) then .error .malformed
    else if 24 < Number.digitsValue [a, b] then .error .zoneHour
    else if 60 < Number.digitsValue [c, d] then .error .zoneMinute
    else if sign = '+' || sign = '-' then .ok cs
    else .error .malformed
  | _ => .error .malformed

/-! ## Whole texts -/

def finish (day : Day) : List Char → Except Fault Unit
  | [] => if day.exists then .ok () else .error .day
  | _ :: _ => .error .malformed

def readInstant (letter : Char) (cs : List Char) : Except Fault Unit := do
  let (day, cs) ← readDay cs
  finish day (← readZone (← readClock (← expect letter cs)))

/-- A day and a time without zone, with spaces between. -/
def readSpaced (cs : List Char) : Except Fault Unit := do
  let (day, cs) ← readDay cs
  let cs ← expect ' ' cs
  finish day (← readClock (cs.dropWhile (· = ' ')))

def readDate (cs : List Char) : Except Fault Unit := do
  let (day, cs) ← readDay cs
  finish day cs

def readTime (cs : List Char) : Except Fault Unit := do
  match ← readClock cs with
  | [] => return ()
  | _ :: _ => throw .malformed

def isLoose (s : String) : Bool :=
  [readInstant 'T', readInstant 't', readSpaced, readDate].any fun read => (read s.toList).isOk

/-- Why a text is no date, no time and no date with a time; colons and hyphens tell which it should
    be. -/
def strictFault? (s : String) : Option Fault :=
  let cs := s.toList
  let result :=
    if !cs.contains ':' then readDate cs
    else if !cs.contains '-' then readTime cs
    else readInstant 'T' cs
  match result with
  | .ok _ => none
  | .error fault => some fault

end KestrelLang.Moment
