import KestrelLang.Machine.Fault
import KestrelLang.Value.Coercion

/-! # Operators

* `Trouble` — why an operation has no result.
* `arithmetic`, `compareValues`, `rangeOf`, `binaryOp`, `unaryOp` — the operators.
* `indexGet`, `indexSet` — elements of arrays and characters of texts. -/

namespace KestrelLang

/-- Why an operation has no result: a fault of the script, a failure of the surroundings in its own
    words, or a demand that no machine can meet, which ends everything at once. -/
inductive Trouble where
  | fault (cause : FaultCause)
  | failed (message : String)
  | abort
  deriving DecidableEq, Repr, Inhabited

/-- Arrays and ranges stay below this many elements. -/
def maxElements : Int64 := 16777216

/-! ## Arithmetic -/

inductive ArithOp where
  | add | sub | mul | div | mod
  deriving DecidableEq, Repr, Inhabited

/-- Arithmetic on integers wraps around; a quotient that is not whole is a floating-point number. -/
def intArith (op : ArithOp) (a b : Int64) : Except Trouble Numeric :=
  match op with
  | .add => .ok (.int (a + b))
  | .sub => .ok (.int (a - b))
  | .mul => .ok (.int (a * b))
  | .div =>
    if b = 0 then .error (.fault .divisionByZero)
    else if a % b = 0 then .ok (.int (a / b))
    else .ok (.float (Binary64.ofInt64 a / Binary64.ofInt64 b))
  | .mod => if b = 0 then .error (.fault .modulusByZero) else .ok (.int (a % b))

def floatArith (op : ArithOp) (a b : Float) : Except Trouble Numeric :=
  match op with
  | .add => .ok (.float (a + b))
  | .sub => .ok (.float (a - b))
  | .mul => .ok (.float (a * b))
  | .div => if b == 0 then .error (.fault .divisionByZero) else .ok (.float (a / b))
  | .mod =>
    if b == 0 then .error (.fault .modulusByZero) else .ok (.float (Binary64.remainder a b))

def Numeric.toValue : Numeric → Value
  | .int n => .int n
  | .float x => .float x

/-- Arithmetic is on integers if both sides are integers. -/
def arithmetic (op : ArithOp) : Numeric → Numeric → Except Trouble Value
  | .int a, .int b => (intArith op a b).map Numeric.toValue
  | a, b => (floatArith op a.toFloat b.toFloat).map Numeric.toValue

/-! ## Comparison -/

/-- The order of two numbers; numbers that cannot be compared count as equal. -/
def compareFloats (a b : Float) : Ordering :=
  if a < b then .lt else if b < a then .gt else .eq

def compareTexts (a b : String) : Ordering :=
  if a < b then .lt else if a = b then .eq else .gt

/-- Texts compare as texts; everything else compares as floating-point numbers. -/
def compareValues (s : Store) : Value → Value → Ordering
  | .str a, .str b => compareTexts a b
  | a, b => compareFloats (a.toNumeric s).toFloat (b.toNumeric s).toFloat

/-! ## Ranges -/

/-- The integers from `low` to `high`. A range of `maxElements` or more is refused. The width is
    taken modulo the word size; where that makes it negative, no array can be made. Counting up in words
    to the largest of them would never end; here such a range has its array like any other. -/
def rangeOf (low high : Int64) : Except Trouble (Array Value) :=
  if high < low then .ok #[]
  else if maxElements ≤ high - low then .error (.fault (.rangeTooLarge low high))
  else if high - low + 1 < 0 then .error .abort
  else .ok (Array.ofFn fun i : Fin ((high - low).toInt.toNat + 1) =>
    .int (low + Int64.ofNat i.val))

/-! ## All operators -/

/-- Applies a binary operator; ranges make a new array. -/
def binaryOp (s : Store) (op : BinaryOp) (left right : Value) : Except Trouble Value × Store :=
  let pure (v : Value) : Except Trouble Value × Store := (.ok v, s)
  let arith (op : ArithOp) : Except Trouble Value × Store :=
    (arithmetic op (left.toNumeric s) (right.toNumeric s), s)
  match op with
  | .concat => pure (.str (left.text s ++ right.text s))
  | .eq => pure (.bool (compareValues s left right).isEq)
  | .ne => pure (.bool (compareValues s left right).isNe)
  | .lt => pure (.bool (compareValues s left right).isLT)
  | .le => pure (.bool (compareValues s left right).isLE)
  | .gt => pure (.bool (compareValues s left right).isGT)
  | .ge => pure (.bool (compareValues s left right).isGE)
  | .range =>
    match rangeOf (left.toNumeric s).toInt64 (right.toNumeric s).toInt64 with
    | .error t => (.error t, s)
    | .ok elements =>
      let (ref, s') := s.newArray elements
      (.ok (.array ref), s')
  | .add => arith .add
  | .sub => arith .sub
  | .mul => arith .mul
  | .div => arith .div
  | .mod => arith .mod
  -- `and` and `or` become branches and never come here.
  | .and | .or | .other _ => (.error (.fault (.unsupportedBinary op.text)), s)

def unaryOp (s : Store) (op : UnaryOp) (v : Value) : Except Trouble Value :=
  match op with
  | .not => .ok (.bool !(v.truthy s))
  | .neg =>
    match v.toNumeric s with
    | .int n => .ok (.int (-n))
    | .float x => .ok (.float (-x))
  | .other spelling => .error (.fault (.unsupportedUnary spelling))

/-! ## Elements -/

/-- A position from the front; a negative one counts from the back of `size` elements. -/
def position? (size : Nat) (i : Int64) : Option Int64 :=
  let r := if i < 0 then i + Int64.ofNat size else i
  if r < 0 then none else some r

/-- The element of an array or the character of a text; a place where nothing is gives undef. -/
def indexGet (s : Store) (object index : Value) : Except Trouble Value :=
  let i := (index.toNumeric s).toInt64
  match object with
  | .array ref =>
    let xs := s.elements ref
    match position? xs.size i with
    | some r => .ok (xs[r.toInt.toNat]?.getD .undefined)
    | none => .ok .undefined
  | .str t =>
    let cs := t.toList
    match position? cs.length i with
    | some r =>
      match cs[r.toInt.toNat]? with
      | some c => .ok (.str (String.ofList [c]))
      | none => .ok .undefined
    | none => .ok .undefined
  | _ => .error (.fault (.cannotIndex object.kindText))

/-- Puts `v` at position `r`, with undef in between if the array is too short. -/
def putElement (r : Nat) (v : Value) (xs : Array Value) : Array Value :=
  if r < xs.size then xs.setIfInBounds r v
  else (xs ++ Array.replicate (r - xs.size) Value.undefined).push v

/-- Changes an element of an array, which grows as needed up to `maxElements`. -/
def indexSet (s : Store) (object index v : Value) : Except Trouble Unit × Store :=
  match object with
  | .array ref =>
    match position? (s.elements ref).size (index.toNumeric s).toInt64 with
    | none => (.error (.fault .indexOutOfRange), s)
    | some r =>
      if maxElements ≤ r then (.error (.fault (.indexTooLarge r)), s)
      else (.ok (), s.modifyArray ref (putElement r.toInt.toNat v))
  | _ => (.error (.fault (.cannotAssignInto object.kindText)), s)

end KestrelLang
