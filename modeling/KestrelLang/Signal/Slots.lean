import KestrelLang.Signal.Marker

/-! # The two slots of a thread

* `Channel` — at most one pending marker.
* `Channel.register?` — makes a marker pending; an occupied channel refuses it.
* `Channel.check?` — what a dispatch point with a given label does, and the channel after it.
* `Trampoline` — at most one parked tail call.
* `Trampoline.park?`, `Trampoline.drain` — fill and empty the slot. -/

namespace KestrelLang

abbrev Channel := Option Marker

namespace Channel

def register? (c : Channel) (m : Marker) : Option Channel :=
  match c with
  | none => some (some m)
  | some _ => none

/-- Looks at the channel for a label. A marker for the label is consumed; any other one stays. The
    empty label consumes nothing. A consumed marker of an unknown kind has no action. -/
def check? (c : Channel) (label : String) : Option (DispatchAction × Channel) :=
  match c with
  | none => some (.none, none)
  | some m =>
    if label = "" || m.target ≠ label then some (.pendingOther, c)
    else m.kind.action?.map (·, none)

end Channel

/-! ## Tail calls -/

/-- A callee with its arguments; `V` is the type of values. -/
structure TailCall (V : Type) where
  target : V
  args : List V
  deriving Inhabited

abbrev Trampoline (V : Type) := Option (TailCall V)

namespace Trampoline

def park? {V : Type} (t : Trampoline V) (call : TailCall V) : Option (Trampoline V) :=
  match t with
  | none => some (some call)
  | some _ => none

def drain {V : Type} (t : Trampoline V) : Option (TailCall V) × Trampoline V := (t, none)

end Trampoline

end KestrelLang
