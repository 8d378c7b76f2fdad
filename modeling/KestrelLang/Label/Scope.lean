import KestrelLang.Signal.Marker

/-! # Scopes that verbs aim at

* `Scope` — a loop or a bare block of one unit, numbered in the order of the text.
* `Scope.mode` — where the scope looks at the signal channel.
* `boundary?` — the scope that a verb with a given label leaves, repeats or enters. -/

namespace KestrelLang.Label

/-- Where a scope looks at the signal channel: nowhere, at the end of its body, or after every
    statement of its body. -/
inductive DispatchMode where
  | none | loopEnd | perStatement
  deriving DecidableEq, Repr, Inhabited

def DispatchMode.text : DispatchMode → String
  | .none => "none"
  | .loopEnd => "loop-end"
  | .perStatement => "per-statement"

/-- The mode of a scope: a label makes it look after every statement, a loop at least at its end. -/
def modeOf (label : String) (isLoop : Bool) : DispatchMode :=
  if label ≠ "" then .perStatement else if isLoop then .loopEnd else .none

/-- A loop or a bare block. `parent` is the number of the scope around it. -/
structure Scope where
  id : Nat
  node : String
  label : String
  isLoop : Bool
  parent : Option Nat
  span : Span
  deriving DecidableEq, Repr, Inhabited

def Scope.mode (s : Scope) : DispatchMode := modeOf s.label s.isLoop

/-- Among the enclosing scopes, the innermost first, the one that a verb aims at: without a label the
    innermost loop, with a label the innermost scope that carries it. -/
def boundary? {α : Type} (labelOf : α → String) (isLoop : α → Bool) (label : String)
    (enclosing : List α) : Option α :=
  if label = "" then enclosing.find? isLoop else enclosing.find? fun s => labelOf s = label

end KestrelLang.Label
