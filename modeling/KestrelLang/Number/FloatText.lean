import KestrelLang.Number.Shortest

/-! # Text of floating-point numbers

* `floatText` — the text that a script sees for a number.

Whole numbers below `10 ^ 15` in size are written like integers. Any other number has the fewest
digits that read back, with an exponent of at least two digits when the number is at least `10 ^ 6`
or below `10 ^ -4`. -/

namespace KestrelLang.Number

open KestrelLang.Binary64

def positionalFrom : Int := -4

def positionalBelow : Int := 6

def positional (digits : List Char) (point : Int) : String :=
  if point ≤ 0 then
    String.ofList ('0' :: '.' :: List.replicate (-point).toNat '0' ++ digits)
  else
    let n := point.toNat
    let whole := digits.take n ++ List.replicate (n - digits.length) '0'
    let rest := digits.drop n
    String.ofList (if rest.isEmpty then whole else whole ++ '.' :: rest)

def scientific (digits : List Char) (exponent : Int) : String :=
  let mantissa := match digits with
    | [] => []
    | [d] => [d]
    | d :: ds => d :: '.' :: ds
  let size := Nat.toDigits 10 exponent.natAbs
  let padded := if size.length < 2 then '0' :: size else size
  String.ofList (mantissa ++ 'e' :: (if exponent < 0 then '-' else '+') :: padded)

def shortestText (x : Float) : String :=
  if x.isNaN then "NaN"
  else if !isFinite x then (if signBit x then "-Inf" else "+Inf")
  else
    let sign := if signBit x then "-" else ""
    if x == 0 then sign ++ "0"
    else
      let d := shortest x
      let digits := Nat.toDigits 10 d.digits
      let exponent := d.point - 1
      if exponent < positionalFrom || positionalBelow ≤ exponent then
        sign ++ scientific digits exponent
      else sign ++ positional digits d.point

def isShortWhole (x : Float) : Bool :=
  x.abs < 1e15 && Float.ofInt (truncate x) == x

def floatText (x : Float) : String :=
  if isShortWhole x then toString (truncate x) else shortestText x

end KestrelLang.Number
