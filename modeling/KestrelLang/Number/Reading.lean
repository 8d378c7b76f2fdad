import KestrelLang.Number.Binary64

/-! # Reading numbers

* `readInt64?` — decimal digits with an optional sign, if they fit a word.
* `readFloat?` — a decimal or hexadecimal number with an optional fraction and exponent, or one of
  the names of the values that are not finite; nothing if it is too large.

Underscores may separate the digits of a floating-point number, never those of an integer. -/

namespace KestrelLang.Number

open KestrelLang.Binary64

/-! ## Digits -/

def digitValue? (hex : Bool) (c : Char) : Option Nat :=
  if '0' ≤ c ∧ c ≤ '9' then some (c.toNat - '0'.toNat)
  else if hex ∧ 'a' ≤ c.toLower ∧ c.toLower ≤ 'f' then some (c.toLower.toNat - 'a'.toNat + 10)
  else none

def digitsValue (cs : List Char) : Nat :=
  cs.foldl (fun n c => 10 * n + (c.toNat - '0'.toNat)) 0

/-- Splits off a leading sign; `true` stands for minus. -/
def splitSign : List Char → Bool × List Char
  | '-' :: cs => (true, cs)
  | '+' :: cs => (false, cs)
  | cs => (false, cs)

/-! ## Integers -/

def readInt64? (s : String) : Option Int64 :=
  let (negative, cs) := splitSign s.toList
  if cs.isEmpty || !cs.all Char.isDigit then none
  else
    let n := digitsValue cs
    if negative then (if n ≤ Nat.pow 2 63 then some (Int64.ofInt (-(n : Int))) else none)
    else if n < Nat.pow 2 63 then some (Int64.ofInt n) else none

/-! ## Floating-point numbers -/

inductive Seen where
  | start | digit | underscore | other
  deriving DecidableEq

/-- Every underscore stands between two digits; a base mark counts as a digit. -/
def underscoresFit (hex : Bool) : Seen → List Char → Bool
  | seen, [] => seen ≠ .underscore
  | seen, c :: cs =>
    if (digitValue? hex c).isSome then underscoresFit hex .digit cs
    else if c = '_' then seen = .digit && underscoresFit hex .underscore cs
    else seen ≠ .underscore && underscoresFit hex .other cs

/-- The digits of a mantissa: their value, their number after the point, and the rest. -/
structure Mantissa where
  value : Nat := 0
  places : Nat := 0
  sawDigit : Bool := false
  sawPoint : Bool := false
  sawUnderscore : Bool := false

/-- Reads digits, underscores and at most one point. -/
def readMantissa (hex : Bool) (m : Mantissa) : List Char → Mantissa × List Char
  | [] => (m, [])
  | c :: cs =>
    match digitValue? hex c with
    | some d =>
      let m' := { m with
        value := (if hex then 16 else 10) * m.value + d
        places := if m.sawPoint then m.places + 1 else m.places
        sawDigit := true }
      readMantissa hex m' cs
    | none =>
      if c = '_' then readMantissa hex { m with sawUnderscore := true } cs
      else if c = '.' && !m.sawPoint then readMantissa hex { m with sawPoint := true } cs
      else (m, c :: cs)

/-- An exponent as read: its size stops growing at ten thousand, and underscores are passed over. -/
def exponentSize (cs : List Char) : Nat :=
  cs.foldl
    (fun n c => if c = '_' then n else if n < 10000 then 10 * n + (c.toNat - '0'.toNat) else n) 0

/-- Reads an exponent after its letter: its value and whether it holds underscores. The whole rest
    of the text must belong to it. -/
def readExponent? (cs : List Char) : Option (Int × Bool) :=
  let (negative, ds) := splitSign cs
  match ds with
  | [] => none
  | d :: _ =>
    if d.isDigit && ds.all (fun c => c.isDigit || c = '_') then
      let n : Int := exponentSize ds
      some (if negative then -n else n, ds.contains '_')
    else none

/-- `m · base ^ e` as the nearest double. Exponents far outside the range of doubles are decided
    without computing the power. -/
def scaled? (negative : Bool) (base m : Nat) (e : Int) : Option Float :=
  let size : Int := (Nat.toDigits base m).length
  if m = 0 || size + e < -1200 then some (ofMagnitude negative 0)
  else if 1200 < size + e then none
  else if 0 ≤ e then ofRatio? negative (m * Nat.pow base e.toNat) 1
  else ofRatio? negative m (Nat.pow base (-e).toNat)

/-- The underscores of a whole number text stand where they may; a base mark counts as a digit. -/
def underscoresPlaced (hex : Bool) (body : List Char) : Bool :=
  if hex then underscoresFit true .digit (body.drop 2) else underscoresFit false .start body

def readDigits? (negative : Bool) (body : List Char) : Option Float :=
  let hex := match body with
    | '0' :: x :: _ :: _ => x.toLower = 'x'
    | _ => false
  let (m, rest) := readMantissa hex {} (if hex then body.drop 2 else body)
  let exponent? : Option (Int × Bool) := match rest with
    | [] => if hex then none else some (0, false)
    | c :: cs => if c.toLower = (if hex then 'p' else 'e') then readExponent? cs else none
  match exponent? with
  | none => none
  | some (e, inExponent) =>
    if !m.sawDigit then none
    else if (m.sawUnderscore || inExponent) && !underscoresPlaced hex body then none
    else if hex then scaled? negative 2 m.value (e - 4 * m.places)
    else scaled? negative 10 m.value (e - m.places)

def readFloat? (s : String) : Option Float :=
  let (negative, body) := splitSign s.toList
  let signed := s.toList.length ≠ body.length
  let name := String.ofList (body.map Char.toLower)
  if name = "inf" || name = "infinity" then some (ofMagnitude negative (2047 * Nat.pow 2 52))
  else if name = "nan" && !signed then some (0.0 / 0.0)
  else readDigits? negative body

end KestrelLang.Number
