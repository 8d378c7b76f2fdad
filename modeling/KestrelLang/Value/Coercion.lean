import KestrelLang.Number.FloatText
import KestrelLang.Number.Reading
import KestrelLang.Text.Strings
import KestrelLang.Value.Store

/-! # Coercions

* `Number.Numeric` — an integer or a floating-point number.
* `Value.toNumeric` — the number that a value stands for in arithmetic.
* `Value.truthy` — whether a test on a value succeeds.
* `Value.text` — the text that a value stands for. -/

namespace KestrelLang

inductive Numeric where
  | int (value : Int64)
  | float (value : Float)
  deriving Inhabited

namespace Numeric

def toInt64 : Numeric → Int64
  | .int n => n
  | .float x => Binary64.toInt64 x

def toFloat : Numeric → Float
  | .int n => Binary64.ofInt64 n
  | .float x => x

def isInt : Numeric → Bool
  | .int _ => true
  | .float _ => false

end Numeric

/-- The number that a text stands for: an integer if it reads as one, else a floating-point number,
    else zero. White space around it does not matter. -/
def numericOfText (s : String) : Numeric :=
  let trimmed := Text.trim s
  match Number.readInt64? trimmed with
  | some n => .int n
  | none =>
    match Number.readFloat? trimmed with
    | some x => .float x
    | none => .int 0

/-- The number that a value stands for; an array stands for its length. -/
def Value.toNumeric (s : Store) : Value → Numeric
  | .int n => .int n
  | .float x => .float x
  | .bool b => .int (if b then 1 else 0)
  | .str t => numericOfText t
  | .array ref => .int (Int64.ofNat (s.elements ref).size)
  | .absent | .undefined | .sub _ | .native .. | .tailCalled => .int 0

/-- A test on the value succeeds. The values that fail are undef, zero, the texts `""` and `"0"`, and
    an array without elements. -/
def Value.truthy (s : Store) : Value → Bool
  | .absent | .undefined => false
  | .bool b => b
  | .int n => n ≠ 0
  | .float x => x != 0
  | .str t => t ≠ "" && t ≠ "0"
  | .array ref => !(s.elements ref).isEmpty
  | .sub _ | .native .. | .tailCalled => true

/-- The text of a value inside the arrays `around`, down to `depth` further arrays. An array inside
    itself has no finite text, and writing it out would never end; here its inner occurrence is cut to the
    empty text. -/
def Value.textWithin (s : Store) : (depth : Nat) → (around : List Nat) → Value → String
  | _, _, .absent | _, _, .undefined => ""
  | _, _, .str t => t
  | _, _, .bool b => if b then "1" else ""
  | _, _, .int n => toString n.toInt
  | _, _, .float x => Number.floatText x
  | 0, _, .array _ => ""
  | depth + 1, around, .array ref =>
    if around.contains ref then ""
    else
      let parts := (s.elements ref).toList.map fun v => textWithin s depth (ref :: around) v
      "[" ++ ", ".intercalate parts ++ "]"
  | _, _, .sub f => if f.name = "" then "sub \x7b...\x7d" else "sub " ++ f.name
  | _, _, .native name _ _ => "builtin " ++ name
  | _, _, .tailCalled => "<" ++ Kind.undefined.text ++ ">"

/-- The text that a value stands for. Arrays inside each other are different ones, so they cannot nest
    deeper than there are arrays. -/
def Value.text (s : Store) (v : Value) : String := v.textWithin s (s.arrays.size + 1) []

end KestrelLang
