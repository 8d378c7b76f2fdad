import KestrelLang.Grammar.Tree
import KestrelLang.Text.Strings

/-! # Markers

* `MarkerKind` — what a pending verb asks for: to leave, to go on with, to repeat or to enter a scope.
* `Marker` — a pending verb with the label that it is meant for.
* `DispatchAction` — what a dispatch point does after it looked at the channel. -/

namespace KestrelLang

inductive DispatchAction where
  | none | exit | proceed | restart | jump | pendingOther
  deriving DecidableEq, Repr, Inhabited

namespace DispatchAction

def all : List DispatchAction :=
  [.none, .exit, .proceed, .restart, .jump, .pendingOther]

def text : DispatchAction → String
  | .none => "none"
  | .exit => "exit"
  | .proceed => "continue"
  | .restart => "restart"
  | .jump => "jump"
  | .pendingOther => "pending_other"

end DispatchAction

/-- What a pending verb asks for. Codes beyond the four verbs can only come from a host. -/
inductive MarkerKind where
  | exit | proceed | restart | jump
  | unknown (code : Int)
  deriving DecidableEq, Repr, Inhabited

namespace MarkerKind

def ofCode : Int → MarkerKind
  | 0 => .exit
  | 1 => .proceed
  | 2 => .restart
  | 3 => .jump
  | code => .unknown code

def code : MarkerKind → Int
  | .exit => 0
  | .proceed => 1
  | .restart => 2
  | .jump => 3
  | .unknown code => code

def text : MarkerKind → String
  | .exit => "last"
  | .proceed => "next"
  | .restart => "redo"
  | .jump => "goto"
  | .unknown code => s!"unknown_marker_{code}"

/-- The action that consumes a marker of this kind; an unknown kind has none. -/
def action? : MarkerKind → Option DispatchAction
  | .exit => some .exit
  | .proceed => some .proceed
  | .restart => some .restart
  | .jump => some .jump
  | .unknown _ => none

def ofVerb? : Verb → Option MarkerKind
  | .last => some .exit
  | .next => some .proceed
  | .redo => some .restart
  | .goto => some .jump
  | .other _ => none

end MarkerKind

/-- A pending verb: what it asks for, the label it is meant for, and where it was written. -/
structure Marker where
  kind : MarkerKind
  target : String
  span : Span
  origin : String
  deriving DecidableEq, Repr, Inhabited

def Marker.text (m : Marker) : String :=
  if m.target = "" then m.kind.text else m.kind.text ++ " " ++ m.target

end KestrelLang
