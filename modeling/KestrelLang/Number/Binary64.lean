/-! # Exact view of double-precision numbers

* `Binary64.decode` — a finite number as sign, whole mantissa and power of two.
* `Binary64.ofRatio?` — the double nearest to a quotient of naturals, ties to even; nothing when
  the quotient is too large.
* `Binary64.toInt64` — truncation toward zero.
* `Binary64.remainder` — the exact remainder of a division that truncates, with the sign of the
  dividend.

All arithmetic is on naturals, so every result here is exact. -/

namespace KestrelLang.Binary64

structure Parts where
  negative : Bool
  mantissa : Nat
  exponent : Int
  deriving DecidableEq, Repr, Inhabited

def exponentField (x : Float) : Nat := (x.toBits.toNat / Nat.pow 2 52) % Nat.pow 2 11

def fractionField (x : Float) : Nat := x.toBits.toNat % Nat.pow 2 52

def signBit (x : Float) : Bool := Nat.pow 2 63 ≤ x.toBits.toNat

def isFinite (x : Float) : Bool := exponentField x ≠ 2047

def decode (x : Float) : Parts :=
  if exponentField x = 0 then ⟨signBit x, fractionField x, -1074⟩
  else ⟨signBit x, fractionField x + Nat.pow 2 52, (exponentField x : Int) - 1075⟩

def ofMagnitude (negative : Bool) (bits : Nat) : Float :=
  Float.ofBits (UInt64.ofNat (bits + if negative then Nat.pow 2 63 else 0))

/-- `num / den` rounded to a whole number, a half to the even neighbour. -/
def roundDiv (num den : Nat) : Nat :=
  let q := num / den
  let r := num % den
  if 2 * r < den then q
  else if den < 2 * r then q + 1
  else q + q % 2

def roundScaled (num den : Nat) (e : Int) : Nat :=
  if 0 ≤ e then roundDiv num (den * Nat.pow 2 e.toNat) else roundDiv (num * Nat.pow 2 (-e).toNat) den

/-- The power of two for which `num / den` has a mantissa of 53 bits, but not below the smallest
    one that doubles have. -/
def exponentOf (num den : Nat) : Int :=
  let guess : Int := (Nat.log2 num : Int) - (Nat.log2 den : Int) - 52
  let fits : Bool :=
    if 0 ≤ guess then den * Nat.pow 2 guess.toNat * Nat.pow 2 52 ≤ num
    else den * Nat.pow 2 52 ≤ num * Nat.pow 2 (-guess).toNat
  max (-1074) (if fits then guess else guess - 1)

/-- Magnitude bits of the double nearest to `num / den`, or nothing if it is not finite. -/
def magnitude? (num den : Nat) : Option Nat :=
  if num = 0 then some 0
  else
    let e := exponentOf num den
    let m := roundScaled num den e
    let bits := if m < Nat.pow 2 52 then m else (e + 1074).toNat * Nat.pow 2 52 + m
    if bits < 2047 * Nat.pow 2 52 then some bits else none

def ofRatio? (negative : Bool) (num den : Nat) : Option Float :=
  (magnitude? num den).map (ofMagnitude negative)

def truncate (x : Float) : Int :=
  let p := decode x
  let size : Nat :=
    if 0 ≤ p.exponent then p.mantissa * Nat.pow 2 p.exponent.toNat
    else p.mantissa / Nat.pow 2 (-p.exponent).toNat
  if p.negative then -(size : Int) else size

/-- The number without its fraction as a word; what has no word near it gives the least one. -/
def toInt64 (x : Float) : Int64 :=
  if isFinite x && -(Nat.pow 2 63) ≤ truncate x && truncate x < Nat.pow 2 63 then Int64.ofInt (truncate x)
  else Int64.minValue

/-- A whole number of at most 2 ^ 53 in size converts exactly; a larger one goes to the nearest
    double. -/
def ofInt64 (n : Int64) : Float := Float.ofInt n.toInt

/-- What is left of `x` after taking away the largest whole multiple of `y` that is not larger in
    size. It is exact and has the sign of `x`. -/
def remainder (x y : Float) : Float :=
  if x.isNaN || y.isNaN || !isFinite x || y == 0 then 0.0 / 0.0
  else if !isFinite y then x
  else
    let a := decode x
    let b := decode y
    let e := min a.exponent b.exponent
    let r := (a.mantissa * Nat.pow 2 (a.exponent - e).toNat) % (b.mantissa * Nat.pow 2 (b.exponent - e).toNat)
    let result :=
      if 0 ≤ e then magnitude? (r * Nat.pow 2 e.toNat) 1 else magnitude? r (Nat.pow 2 (-e).toNat)
    ofMagnitude a.negative (result.getD 0)

end KestrelLang.Binary64
