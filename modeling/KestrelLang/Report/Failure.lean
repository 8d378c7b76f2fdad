import KestrelLang.Code.CompileError
import KestrelLang.Grammar.ParseError
import KestrelLang.Machine.Fault

/-! # Failures

* `Failure` — everything that can go wrong with a script, perhaps with remarks in front.
* `Failure.root` — what went wrong, without the remarks.
* `Failure.message` — the wording. -/

namespace KestrelLang

inductive Failure where
  | parse (error : ParseError)
  | compile (error : CompileError)
  | fault (f : Fault)
  /-- The host asked the run to stop. -/
  | canceled
  /-- A marker was to be registered while one was pending. -/
  | channelOccupied
  /-- A tail call was to be parked while one was pending. -/
  | trampolineOccupied
  /-- A failure in its own words. -/
  | plain (message : String)
  /-- A failure with a remark on what was being done. -/
  | during (activity : String) (inner : Failure)
  deriving Inhabited

namespace Failure

/-- The wording: remarks come first, each with a colon after it. -/
def message : Failure → String
  | .parse error => error.message
  | .compile error => error.message
  | .fault f => f.message
  | .canceled => "context canceled"
  | .channelOccupied => "signal channel already holds a pending marker"
  | .trampolineOccupied => "trampoline slot already holds a pending tail call"
  | .plain message => message
  | .during activity inner => activity ++ ": " ++ inner.message

def root : Failure → Failure
  | .during _ inner => inner.root
  | failure => failure

def kindText (failure : Failure) : String :=
  match failure.root with
  | .parse _ => "ParseError"
  | .compile error => "CompileError/" ++ error.kind.text
  | .fault f => "RuntimeError/" ++ f.kind.text
  | .canceled => "Canceled"
  | .channelOccupied => "ChannelOccupied"
  | .trampolineOccupied => "TrampolineOccupied"
  | _ => "error"

/-- The text ended too early, so more lines might complete it. -/
def isIncomplete (failure : Failure) : Bool :=
  match failure.root with
  | .parse error => error.isIncomplete
  | _ => false

def isFault (failure : Failure) (kind : FaultKind) : Bool :=
  match failure.root with
  | .fault f => f.kind = kind
  | _ => false

def isCompileError (failure : Failure) (kind : CompileErrorKind) : Bool :=
  match failure.root with
  | .compile error => error.kind = kind
  | _ => false

end Failure

end KestrelLang
