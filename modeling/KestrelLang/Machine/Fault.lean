import KestrelLang.Signal.Marker

/-! # Faults

* `FaultKind` — the classes of faults of a running script.
* `FaultCause` — why a script cannot go on, with its class and its wording.
* `Fault` — a cause with its place and the calls that it unwound through. -/

namespace KestrelLang

/-- The classes of faults; a host may use codes of its own. -/
inductive FaultKind where
  | unmatchedLabel | callDepthExceeded | undefinedVariable | notCallable | arity | type
  | unknown (code : Int)
  deriving DecidableEq, Repr, Inhabited

namespace FaultKind

def ofCode : Int → FaultKind
  | 0 => .unmatchedLabel
  | 1 => .callDepthExceeded
  | 2 => .undefinedVariable
  | 3 => .notCallable
  | 4 => .arity
  | 5 => .type
  | code => .unknown code

def text : FaultKind → String
  | .unmatchedLabel => "UnmatchedLabel"
  | .callDepthExceeded => "CallDepthExceeded"
  | .undefinedVariable => "UndefinedVariable"
  | .notCallable => "NotCallable"
  | .arity => "Arity"
  | .type => "Type"
  | .unknown code => s!"RuntimeErrorKind({code})"

end FaultKind

inductive FaultCause where
  /-- No scope on the way out carries the label. -/
  | unmatchedLabel (label : String)
  | depthExceeded (limit : Nat)
  | undefinedVariable (name : String)
  /-- A host asked for a sub that is not there. -/
  | undefinedSub (name : String)
  /-- A sub that a host made without code. -/
  | noCode (name : String)
  | notCallable (kind : String)
  | arity (name : String) (wanted : Int) (given : Nat)
  | pushWithoutArray
  | pushOnto (kind : String)
  | unsupportedBinary (spelling : String)
  | unsupportedUnary (spelling : String)
  | divisionByZero
  | modulusByZero
  | rangeTooLarge (low high : Int64)
  | cannotIndex (kind : String)
  | cannotAssignInto (kind : String)
  | indexOutOfRange
  | indexTooLarge (index : Int64)
  /-- A complaint of the host in its own words. -/
  | custom (kind : FaultKind) (label message : String)
  deriving DecidableEq, Repr, Inhabited

namespace FaultCause

def kind : FaultCause → FaultKind
  | .unmatchedLabel _ => .unmatchedLabel
  | .depthExceeded _ => .callDepthExceeded
  | .undefinedVariable _ | .undefinedSub _ => .undefinedVariable
  | .noCode _ | .notCallable _ => .notCallable
  | .arity .. | .pushWithoutArray => .arity
  | .pushOnto _ | .unsupportedBinary _ | .unsupportedUnary _ | .divisionByZero | .modulusByZero
  | .rangeTooLarge .. | .cannotIndex _ | .cannotAssignInto _ | .indexOutOfRange
  | .indexTooLarge _ => .type
  | .custom kind _ _ => kind

def unmatchedText (label : String) : String := "can't find label " ++ label

def message : FaultCause → String
  | .unmatchedLabel label => unmatchedText label
  | .depthExceeded limit => s!"maximum call depth {limit} exceeded"
  | .undefinedVariable name => "undefined variable '" ++ name ++ "'"
  | .undefinedSub name => "undefined subroutine '" ++ name ++ "'"
  | .noCode name => "subroutine " ++ name ++ " has no code"
  | .notCallable kind => "value of kind " ++ kind ++ " is not callable"
  | .arity name wanted given => s!"{name} expects {wanted} argument(s), got {given}"
  | .pushWithoutArray => "push expects an array"
  | .pushOnto kind => "push expects an array, got " ++ kind
  | .unsupportedBinary spelling => "unsupported operator " ++ spelling
  | .unsupportedUnary spelling => "unsupported unary operator " ++ spelling
  | .divisionByZero => "division by zero"
  | .modulusByZero => "modulus by zero"
  | .rangeTooLarge low high => s!"range {low.toInt}..{high.toInt} too large"
  | .cannotIndex kind => "cannot index a value of kind " ++ kind
  | .cannotAssignInto kind => "cannot assign into a value of kind " ++ kind
  | .indexOutOfRange => "array index out of range"
  | .indexTooLarge index => s!"array index {index.toInt} too large"
  | .custom kind label message =>
    if kind = .unmatchedLabel then unmatchedText label else message

end FaultCause

structure CallSite where
  origin : String
  span : Span
  deriving DecidableEq, Repr, Inhabited

/-- A cause, its place, the name of the text, and the calls that it unwound through, the innermost
    first. -/
structure Fault where
  cause : FaultCause
  span : Span
  origin : String
  callSites : List CallSite
  deriving DecidableEq, Repr, Inhabited

namespace Fault

def ofCause (cause : FaultCause) : Fault := ⟨cause, .zero, "", []⟩

def ofMarker (m : Marker) : Fault := ⟨.unmatchedLabel m.target, m.span, m.origin, []⟩

def kind (f : Fault) : FaultKind := f.cause.kind

def summary (f : Fault) : String := f.cause.message

def message (f : Fault) : String :=
  if f.span.isZero then f.summary
  else if f.origin = "" then f.summary ++ " at line " ++ f.span.text
  else f.summary ++ " at " ++ f.origin ++ ":" ++ f.span.text

def maxCallSites : Nat := 8

/-- Records a call, unless it stands nowhere or the list is full. -/
def addCallSite (f : Fault) (site : CallSite) : Fault :=
  if maxCallSites ≤ f.callSites.length || site.span.isZero then f
  else { f with callSites := f.callSites ++ [site] }

/-- Gives a fault without a place the place of the instruction that met it. -/
def locate (f : Fault) (origin : String) (span : Span) : Fault :=
  if f.span.isZero then { f with span := span, origin := origin } else f

/-- A fault that leaves the call at `span`: it takes the place of the call if it has none, and
    otherwise lists the call. -/
def throughCall (f : Fault) (origin : String) (span : Span) : Fault :=
  let g := f.locate origin span
  if g.span = span then g else g.addCallSite ⟨origin, span⟩

end Fault

end KestrelLang
