import KestrelLang.Number.Binary64

/-! # Shortest decimal digits

* `Decimal` — digits with a decimal point: `0.d₁d₂…dₙ · 10 ^ point`.
* `shortest` — the fewest digits that read back as the same double; among those the nearest.

The doubles next to a number leave an interval of reals that read back as it. For one digit, two
digits, … the two neighbours of the number on that decimal grid are tested against the interval. -/

namespace KestrelLang.Number

open KestrelLang.Binary64

/-- A positive decimal number `0.d₁d₂…dₙ · 10 ^ point`; `digits` is `d₁d₂…dₙ` as a whole number. -/
structure Decimal where
  digits : Nat
  point : Int
  deriving DecidableEq, Repr, Inhabited

/-- The reals that read back as `num / den`, with a common denominator. -/
structure Interval where
  low : Nat
  value : Nat
  high : Nat
  den : Nat
  closed : Bool

/-- The interval around a positive finite number. Below a power of two the neighbours are nearer. -/
def interval (p : Parts) : Interval :=
  let lowGap : Nat := if p.mantissa = Nat.pow 2 52 && -1074 < p.exponent then 1 else 2
  let scale : Nat := if 2 ≤ p.exponent then Nat.pow 2 (p.exponent - 2).toNat else 1
  let den : Nat := if 2 ≤ p.exponent then 1 else Nat.pow 2 (2 - p.exponent).toNat
  { low := (4 * p.mantissa - lowGap) * scale
    value := 4 * p.mantissa * scale
    high := (4 * p.mantissa + 2) * scale
    den := den
    closed := p.mantissa % 2 = 0 }

/-- The whole number `k` with `10 ^ (k - 1) ≤ num / den < 10 ^ k`. -/
def pointOf (num den : Nat) : Int :=
  if den ≤ num then (Nat.toDigits 10 (num / den)).length
  else 1 - ((Nat.toDigits 10 (den / num)).length : Int)

def Interval.holds (i : Interval) (unit : Int) (d : Nat) : Bool :=
  let num := if 0 ≤ unit then d * Nat.pow 10 unit.toNat * i.den else d * i.den
  let scale := if 0 ≤ unit then 1 else Nat.pow 10 (-unit).toNat
  if i.closed then i.low * scale ≤ num && num ≤ i.high * scale
  else i.low * scale < num && num < i.high * scale

def Interval.neighbours (i : Interval) (unit : Int) : List Nat :=
  let num := if 0 ≤ unit then i.value else i.value * Nat.pow 10 (-unit).toNat
  let den := if 0 ≤ unit then i.den * Nat.pow 10 unit.toNat else i.den
  let below := num / den
  let r := num % den
  if 2 * r < den || (2 * r = den && below % 2 = 0) then [below, below + 1] else [below + 1, below]

def search (i : Interval) (point : Int) : Nat → Nat → Option (Nat × Nat)
  | 0, _ => none
  | more + 1, n =>
    let unit := point - n
    match (i.neighbours unit).find? (i.holds unit) with
    | some d => some (d, n)
    | none => search i point more (n + 1)

/-- `d` without trailing zeros, at most `fuel` of them. -/
def dropZeros : Nat → Nat → Nat
  | 0, d => d
  | fuel + 1, d => if d % 10 = 0 then dropZeros fuel (d / 10) else d

/-- The shortest digits of the size of a finite number other than zero. Seventeen always do. -/
def shortest (x : Float) : Decimal :=
  let i := interval (decode x)
  let point := pointOf i.value i.den
  match search i point 17 1 with
  | some (d, n) =>
    if d = Nat.pow 10 n then ⟨1, point + 1⟩ else ⟨dropZeros n d, point⟩
  | none => ⟨0, 0⟩

end KestrelLang.Number
