import KestrelLang.Report.Failure
import KestrelLang.Report.Log
import KestrelLang.Signal.Slots
import KestrelLang.Value.Operators

/-! # States of the machine

* `Limits` — what bounds a run.
* `Thread` — what stays from one run to the next.
* `Frame`, `Suspended` — the activation of a unit, running or stopped at a call.
* `Machine` — a run in progress.
* `Frame.jump` — moves to a target and restores the depths that hold there. -/

namespace KestrelLang

/-! ## Limits and output -/

structure Limits where
  /-- The deepest nesting of calls, if there is a limit. -/
  maxDepth : Option Nat
  /-- The number of instructions between two looks at the host's wish to stop. -/
  interval : Nat
  /-- The number of looks after which the host wishes to stop, if it ever does. -/
  cancelAfter : Option Nat
  /-- The number of bytes that may be written, if there is a limit. -/
  outLimit : Option Nat
  deriving DecidableEq, Repr, Inhabited

/-- Adds text to what was written, unless the total would pass the limit; then all stays as it
    was. -/
def appendWithin (limit : Option Nat) (out text : String) : Except String String :=
  match limit with
  | none => .ok (out ++ text)
  | some n => if n < out.utf8ByteSize + text.utf8ByteSize then .error out else .ok (out ++ text)

/-! ## Threads -/

/-- What stays from one run to the next. The globals are environment zero of the store. -/
structure Thread where
  id : Nat
  store : Store
  channel : Channel
  trampoline : Trampoline Value
  depth : Nat
  peak : Nat
  deriving Inhabited

def globals : Nat := 0

def Thread.new (id : Nat) : Thread :=
  { id := id
    store := Builtin.all.foldl (fun s b => s.define globals b.name b.toValue) Store.empty
    channel := none
    trampoline := none
    depth := 0
    peak := 0 }

/-! ## Frames -/

/-- A walk over elements that were collected when it began. -/
structure Iter where
  elements : Array Value
  next : Nat
  current : Value
  deriving Inhabited

/-- The activation of a unit. The innermost iterator and the top of the stack come first. Without an
    address the frame is about to end. -/
structure Frame where
  unit : CodeUnit
  env : Nat
  baseDepth : Nat
  args : List Value
  stack : List Value
  iters : List Iter
  result : Value
  ip : Option Nat
  deriving Inhabited

def Frame.start (unit : CodeUnit) (env baseDepth : Nat) (args : List Value) : Frame :=
  ⟨unit, env, baseDepth, args, [], [], .undefined, some 0⟩

/-- A frame that is stopped at a call: where it continues if a marker comes back, and where the call
    stands in the text. -/
structure Suspended where
  frame : Frame
  landing : JumpTarget
  site : Span
  deriving Inhabited

def cutIters (n : Nat) (iters : List Iter) : List Iter := iters.drop (iters.length - n)

/-- Moves to a target: scopes and iterators opened since are left, and the stack is emptied. -/
def Frame.jump (f : Frame) (s : Store) : JumpTarget → Frame
  | .exit =>
    { f with env := s.unwind f.baseDepth f.env, iters := [], stack := [], ip := none }
  | .to ip scopes iters =>
    { f with
      env := s.unwind (f.baseDepth + scopes) f.env
      iters := cutIters iters f.iters
      stack := []
      ip := some ip }

/-! ## Machines -/

/-- How a run was started: as the main chunk of a program, or as a call from the host. -/
inductive Base where
  | program | call
  deriving DecidableEq, Repr, Inhabited

/-- A run in progress. `callers` are the frames stopped at calls, the innermost first; `steps` and
    `polls` count instructions and looks at the host's wish; `events` are in reverse order. -/
structure Machine where
  thread : Thread
  frame : Frame
  callers : List Suspended
  base : Base
  steps : Nat
  polls : Nat
  out : String
  events : List Event
  deriving Inhabited

inductive Outcome where
  | value (v : Value)
  | failure (f : Failure)
  /-- A demand that no machine can meet ended everything at once. -/
  | aborted
  deriving Inhabited

inductive Next where
  | running (m : Machine)
  | done (m : Machine) (outcome : Outcome)
  deriving Inhabited

namespace Machine

def note (m : Machine) (message : String) (details : List (String × String)) : Machine :=
  let event : Event := ⟨.debug, message, ("thread", toString m.thread.id) :: details⟩
  { m with events := event :: m.events }

/-- The place of a failure becomes that of the calls it leaves. -/
def leaveCall (failure : Failure) (s : Suspended) : Failure :=
  match failure with
  | .fault f => .fault (f.throughCall s.frame.unit.origin s.site)
  | other => other

/-- Ends the run with a failure that leaves all `callers`. -/
def raise (m : Machine) (callers : List Suspended) (failure : Failure) : Next :=
  .done m (.failure (callers.foldl leaveCall failure))

def raiseTrouble (m : Machine) (callers : List Suspended) : Trouble → Next
  | .fault cause => m.raise callers (.fault (.ofCause cause))
  | .failed message => m.raise callers (.plain message)
  | .abort => .done m .aborted

def raiseHere (m : Machine) (span : Span) : Trouble → Next
  | .fault cause => m.raise m.callers (.fault ⟨cause, span, m.frame.unit.origin, []⟩)
  | .failed message => m.raise m.callers (.plain message)
  | .abort => .done m .aborted

end Machine

end KestrelLang
