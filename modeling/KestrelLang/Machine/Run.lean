import KestrelLang.Machine.Step

/-! # Runs

* `iterate` — steps until the run ends or the fuel does.
* `Report` — what a host learns about a run.
* `Thread.settle`, `Thread.abandon` — what a failed run leaves behind, and a run that was cut off.
* `Thread.load`, `Thread.run`, `Thread.call` — the ways to use a thread. -/

namespace KestrelLang

/-- Steps until the run ends; nothing if the fuel ends first. -/
def iterate (limits : Limits) : (fuel : Nat) → Next → Option (Machine × Outcome)
  | _, .done m outcome => some (m, outcome)
  | 0, .running _ => none
  | fuel + 1, .running m => iterate limits fuel (step limits m)

structure Report where
  thread : Thread
  outcome : Outcome
  steps : Nat
  polls : Nat
  out : String
  events : List Event
  deriving Inhabited

def Report.immediate (thread : Thread) (outcome : Outcome) : Report := ⟨thread, outcome, 0, 0, "", []⟩

namespace Thread

def settle (t : Thread) : Thread := { t with channel := none, trampoline := none, depth := 0 }

/-- A thread whose run was cut off. The open calls count themselves back on the way out; nobody clears
    the channel or the slot. -/
def abandon (t : Thread) : Thread := { t with depth := 0 }

/-- The report about an ended run. A marker that is still pending has no scope to go to. -/
def report (m : Machine) (outcome : Outcome) : Report :=
  match outcome, m.thread.channel with
  | .value _, some marker =>
    let m := m.note "unmatched label at top frame"
      [("marker", marker.text), ("origin", marker.origin), ("at", marker.span.text)]
    ⟨{ m.thread with channel := none }, .failure (.fault (.ofMarker marker)), m.steps, m.polls, m.out,
      m.events.reverse⟩
  | .value v, none => ⟨m.thread, .value v, m.steps, m.polls, m.out, m.events.reverse⟩
  | .failure f, _ => ⟨m.thread.settle, .failure f, m.steps, m.polls, m.out, m.events.reverse⟩
  | .aborted, _ => ⟨m.thread.abandon, .aborted, m.steps, m.polls, m.out, m.events.reverse⟩

def finish (limits : Limits) (fuel : Nat) (start : Next) : Option Report :=
  (iterate limits fuel start).map fun (m, outcome) => report m outcome

def loadSub (s : Store) (u : CodeUnit) : Store :=
  s.define globals u.name (.sub ⟨u.name, u.params, globals, some u, u.span⟩)

def load (t : Thread) (p : Program) : Thread :=
  { t with store := p.subs.foldl loadSub t.store }

/-- A machine on a thread at rest; its frame is about to end. -/
def machine (t : Thread) (base : Base) : Machine :=
  { thread := t
    frame := { Frame.start default globals 0 [] with ip := none }
    callers := []
    base := base
    steps := 0
    polls := 0
    out := ""
    events := [] }

def startProgram (t : Thread) (p : Program) : Next :=
  let t := t.load p
  .running { t.machine .program with frame := Frame.start p.main globals (t.store.depth globals) [] }

def run (limits : Limits) (fuel : Nat) (t : Thread) (p : Program) : Option Report :=
  finish limits fuel (t.startProgram p)

def startCall (limits : Limits) (t : Thread) (callee : Value) (args : List Value) : Next :=
  (t.machine .call).call limits [] callee args

def call (limits : Limits) (fuel : Nat) (t : Thread) (name : String) (args : List Value) :
    Option Report :=
  match t.store.get? name globals with
  | none => some (.immediate t (.failure (.fault (.ofCause (.undefinedSub name)))))
  | some callee => finish limits fuel (t.startCall limits callee args)

def runNothing (t : Thread) : Report :=
  .immediate t (.failure (.plain "interpreter: missing program"))

end Thread

end KestrelLang
