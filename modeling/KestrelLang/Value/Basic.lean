import KestrelLang.Code.Instr

/-! # Values

* `Value` — what scripts compute with. Arrays are references into a store.
* `SubValue` — a named sub or a closure, with the environment it was made in.
* `Builtin` — the subs that the language brings along.
* `Kind` — the classes of values. -/

namespace KestrelLang

/-! ## Builtins -/

inductive Builtin where
  | print | say | len | push | join | str | int
  deriving DecidableEq, Repr, Inhabited

namespace Builtin

def all : List Builtin := [.print, .say, .len, .push, .join, .str, .int]

def name : Builtin → String
  | .print => "print"
  | .say => "say"
  | .len => "len"
  | .push => "push"
  | .join => "join"
  | .str => "str"
  | .int => "int"

/-- How many arguments a builtin takes; a negative number stands for any. -/
def arity : Builtin → Int
  | .print | .say | .push => -1
  | .len | .str | .int => 1
  | .join => 2

end Builtin

/-! ## Values -/

/-- A named sub or a closure (whose name is empty). A sub that a host made has no code. -/
structure SubValue where
  name : String
  params : List String
  closure : Nat
  code : Option CodeUnit
  span : Span
  deriving Inhabited

/-- What scripts compute with. `absent` is what a host passes for no value at all, and `tailCalled`
    is what a frame returns after it parked a tail call; scripts make neither. -/
inductive Value where
  | absent
  | undefined
  | str (value : String)
  | bool (value : Bool)
  | int (value : Int64)
  | float (value : Float)
  | array (ref : Nat)
  | sub (value : SubValue)
  | native (name : String) (arity : Int) (impl : Option Builtin)
  | tailCalled
  deriving Inhabited

def Literal.toValue : Literal → Value
  | .undefined => .undefined
  | .int value => .int value
  | .float value => .float value
  | .str value => .str value

def Builtin.toValue (b : Builtin) : Value := .native b.name b.arity (some b)

/-! ## Kinds -/

inductive Kind where
  | undefined | string | bool | integer | float | array | sub | native
  deriving DecidableEq, Repr, Inhabited

namespace Kind

def all : List Kind := [.undefined, .string, .bool, .integer, .float, .array, .sub, .native]

def text : Kind → String
  | .undefined => "undef"
  | .string => "string"
  | .bool => "bool"
  | .integer => "integer"
  | .float => "float"
  | .array => "array"
  | .sub => "sub"
  | .native => "native_function"

end Kind

namespace Value

def kind? : Value → Option Kind
  | .absent => none
  | .undefined | .tailCalled => some .undefined
  | .str _ => some .string
  | .bool _ => some .bool
  | .int _ => some .integer
  | .float _ => some .float
  | .array _ => some .array
  | .sub _ => some .sub
  | .native .. => some .native

def kindText (v : Value) : String :=
  match v.kind? with
  | some kind => kind.text
  | none => Kind.undefined.text

def isTailCalled : Value → Bool
  | .tailCalled => true
  | _ => false

end Value

end KestrelLang
