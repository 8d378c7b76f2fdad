import KestrelLang.Number.Reading

/-! # Integers with a base mark

* `IntegerFault` — why a text is no integer.
* `readPrefixed` — an integer of 64 bits whose base may be marked: `0x`, `0o`, `0b`, or a leading zero
  for octal. Underscores may separate digits. -/

namespace KestrelLang.Number

inductive IntegerFault where
  | malformed | outOfRange
  deriving DecidableEq, Repr, Inhabited

def splitBase : List Char → Nat × List Char
  | '0' :: x :: d :: ds =>
    match x.toLower with
    | 'b' => (2, d :: ds)
    | 'o' => (8, d :: ds)
    | 'x' => (16, d :: ds)
    | _ => (8, x :: d :: ds)
  | '0' :: ds => (8, ds)
  | ds => (10, ds)

def digitIn? (base : Nat) (c : Char) : Option Nat :=
  match digitValue? true c with
  | some d => if d < base then some d else none
  | none => none

/-- The value of digits in a base; underscores are passed over. -/
def valueIn (base : Nat) (cs : List Char) : Nat :=
  cs.foldl (fun n c => match digitIn? base c with | some d => base * n + d | none => n) 0

/-- Whether the underscores of a number stand between digits, its base mark included. -/
def separatorsFit (body : List Char) : Bool :=
  match body with
  | '0' :: x :: rest =>
    if x.toLower = 'b' || x.toLower = 'o' then underscoresFit false .digit rest
    else if x.toLower = 'x' then underscoresFit true .digit rest
    else underscoresFit false .start body
  | _ => underscoresFit false .start body

def readMagnitude (body : List Char) : Except IntegerFault Nat :=
  if body.isEmpty then .error .malformed
  else
    let (base, ds) := splitBase body
    let isDigit := fun c => c = '_' || (digitIn? base c).isSome
    let n := valueIn base (ds.takeWhile isDigit)
    if Nat.pow 2 64 ≤ n then .error .outOfRange
    else if !ds.all isDigit then .error .malformed
    else if ds.contains '_' && !separatorsFit body then .error .malformed
    else .ok n

def readPrefixed (s : String) : Except IntegerFault Int :=
  let (negative, body) := splitSign s.toList
  match readMagnitude body with
  | .error e => .error e
  | .ok n =>
    if negative then (if n ≤ Nat.pow 2 63 then .ok (-(n : Int)) else .error .outOfRange)
    else if n < Nat.pow 2 63 then .ok n else .error .outOfRange

end KestrelLang.Number
