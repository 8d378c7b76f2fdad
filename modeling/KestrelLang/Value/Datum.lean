import KestrelLang.Value.Store

/-! # Data

* `Datum` — a value as a host sees it: a finite tree instead of references.
* `Store.view` — the datum of a value. An array inside itself is shown as a cycle.
* `Store.plant` — the value of a datum; its arrays are new. -/

namespace KestrelLang

/-- A value as a host sees it. A sub that a host makes has no code and a builtin no effect. -/
inductive Datum where
  | absent
  | undefined
  | str (value : String)
  | bool (value : Bool)
  | int (value : Int64)
  | float (value : Float)
  | array (elements : List Datum)
  | cycle
  | sub (name : String) (params : List String) (span : Span)
  | native (name : String) (arity : Int)
  | tailCalled
  deriving Inhabited

namespace Store

/-- The datum of a value inside the arrays `around`, down to `depth` arrays inside each other. -/
def viewWithin (s : Store) : (depth : Nat) → (around : List Nat) → Value → Datum
  | _, _, .absent => .absent
  | _, _, .undefined => .undefined
  | _, _, .str t => .str t
  | _, _, .bool b => .bool b
  | _, _, .int n => .int n
  | _, _, .float x => .float x
  | 0, _, .array _ => .cycle
  | depth + 1, around, .array ref =>
    if around.contains ref then .cycle
    else .array ((s.elements ref).toList.map fun v => viewWithin s depth (ref :: around) v)
  | _, _, .sub f => .sub f.name f.params f.span
  | _, _, .native name arity _ => .native name arity
  | _, _, .tailCalled => .tailCalled

/-- The datum of a value. Without repetition, arrays cannot nest deeper than there are arrays. -/
def view (s : Store) (v : Value) : Datum := viewWithin s (s.arrays.size + 1) [] v

mutual

def plant (s : Store) : Datum → Value × Store
  | .absent | .cycle => (.absent, s)
  | .undefined => (.undefined, s)
  | .str t => (.str t, s)
  | .bool b => (.bool b, s)
  | .int n => (.int n, s)
  | .float x => (.float x, s)
  | .array elements =>
    let (values, s1) := plantAll s elements
    let (ref, s2) := s1.newArray values.toArray
    (.array ref, s2)
  | .sub name params _ => (.sub ⟨name, params, 0, none, .zero⟩, s)
  | .native name arity => (.native name arity none, s)
  | .tailCalled => (.tailCalled, s)

def plantAll (s : Store) : List Datum → List Value × Store
  | [] => ([], s)
  | d :: ds =>
    let (v, s1) := plant s d
    let (vs, s2) := plantAll s1 ds
    (v :: vs, s2)

end

end Store

end KestrelLang
