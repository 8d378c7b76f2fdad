import KestrelLang.Machine.Builtins

/-! # One step of the machine

* `Machine.deliver` — gives the value of a call to the frame that made it.
* `Machine.enter` — starts a callee.
* `Machine.call` — a call counts towards the depth.
* `Machine.leave` — ends the current frame with a value; a parked tail call takes its place.
* `Machine.exec` — the effect of one instruction.
* `step` — fetches and runs the next instruction.

A frame that comes back with a marker pending abandons the statement of its caller, which continues at
the landing of the call. -/

namespace KestrelLang

namespace Machine

/-! ## Calls -/

/-- Gives the value of a call to the innermost of `callers`, or to the host. -/
def deliver (m : Machine) (callers : List Suspended) (v : Value) : Next :=
  let thread := { m.thread with depth := m.thread.depth - 1 }
  match callers with
  | [] => .done { m with thread := thread } (.value v)
  | s :: rest =>
    let frame :=
      -- With a marker on its way the value is dropped, and with it what is left of the statement of the call.
      if thread.channel.isSome then s.frame.jump thread.store s.landing
      else { s.frame with stack := v :: s.frame.stack, ip := s.frame.ip.map (· + 1) }
    .running { m with thread := thread, frame := frame, callers := rest }

/-- Binds parameters to arguments; what is missing is undef, and what is left over is dropped. -/
def bindParams (s : Store) (env : Nat) : List String → List Value → Store
  | [], _ => s
  | p :: ps, [] => bindParams (s.define env p .undefined) env ps []
  | p :: ps, v :: vs => bindParams (s.define env p v) env ps vs

/-- Starts `callee` on behalf of `callers`. A builtin is done at once. -/
def enter (limits : Limits) (m : Machine) (callers : List Suspended) (callee : Value)
    (args : List Value) : Next :=
  match callee with
  | .sub f =>
    match f.code with
    | none => m.raiseTrouble callers (.fault (.noCode f.name))
    | some unit =>
      let (env, store) := m.thread.store.extend f.closure
      let store := bindParams store env unit.params args
      let frame := Frame.start unit env (store.depth env) args
      .running { m with thread := { m.thread with store := store }, frame := frame, callers := callers }
  | .native name arity impl =>
    -- A negative arity takes any number of arguments.
    if 0 ≤ arity ∧ (args.length : Int) ≠ arity then
      m.raiseTrouble callers (.fault (.arity name arity args.length))
    else
      match impl with
      | none => .done m .aborted
      | some b =>
        let e := b.apply limits.outLimit m.thread.store m.out args
        let m := { m with thread := { m.thread with store := e.store }, out := e.out }
        match e.result with
        | .ok v => m.deliver callers v
        | .error t => m.raiseTrouble callers t
  | v => m.raiseTrouble callers (.fault (.notCallable v.kindText))

/-- Counts a call and starts its callee, unless the calls nest too deep. -/
def call (limits : Limits) (m : Machine) (callers : List Suspended) (callee : Value)
    (args : List Value) : Next :=
  let depth := m.thread.depth + 1
  let m := { m with thread := { m.thread with depth := depth, peak := max m.thread.peak depth } }
  match limits.maxDepth with
  | some limit =>
    if limit < depth then m.raiseTrouble callers (.fault (.depthExceeded limit))
    else m.enter limits callers callee args
  | none => m.enter limits callers callee args

def missingTailCallText : String := "trampoline continue without a pending tail call"

/-- Ends the current frame with a value. In place of a frame that parked a tail call its callee
    starts, at the same depth. -/
def leave (limits : Limits) (m : Machine) (v : Value) : Next :=
  -- The main chunk was not called, so its end takes nothing off the depth.
  if m.callers.isEmpty ∧ m.base = .program then .done m (.value v)
  else if v.isTailCalled then
    match m.thread.trampoline with
    | none => m.raise m.callers (.plain missingTailCallText)
    | some parked =>
      { m with thread := { m.thread with trampoline := none } }.enter limits m.callers
        parked.target parked.args
  else m.deliver m.callers v

/-! ## Instructions -/

def advance (m : Machine) (stack : List Value) : Next :=
  .running { m with frame := { m.frame with stack := stack, ip := m.frame.ip.map (· + 1) } }

def branchTo (m : Machine) (stack : List Value) (ip : Nat) : Next :=
  .running { m with frame := { m.frame with stack := stack, ip := some ip } }

/-- The complaint about an instruction that finds too little on its stacks. Lowered code never
    does. -/
def underflow (m : Machine) : Next := .done m .aborted

/-- The walk over the elements of a value: those of an array as they are now, none for undef, and
    any other value by itself. -/
def iterOf (s : Store) : Value → Iter
  | .array ref => ⟨s.elements ref, 0, .absent⟩
  | .undefined | .absent => ⟨#[], 0, .absent⟩
  | v => ⟨#[v], 0, .absent⟩

/-- Splits `n` values off a stack, in the order in which they were pushed. -/
def popMany? (n : Nat) (stack : List Value) : Option (List Value × List Value) :=
  if n ≤ stack.length then some ((stack.take n).reverse, stack.drop n) else none

def tailCall (limits : Limits) (m : Machine) (callee : Value) (args : List Value) : Next :=
  match m.thread.trampoline.park? ⟨callee, args⟩ with
  | none => m.raise m.callers (.during "tail call" .trampolineOccupied)
  | some slot =>
    { m with thread := { m.thread with trampoline := slot } }.leave limits .tailCalled

def signal (limits : Limits) (m : Machine) (marker : Marker) : Next :=
  match m.thread.channel.register? marker with
  | none => m.raise m.callers (.during ("register " ++ marker.text) .channelOccupied)
  | some channel =>
    let m := { m with thread := { m.thread with channel := channel } }
    let m := m.note "marker registered"
      [("marker", marker.text), ("unit", m.frame.unit.name), ("at", marker.span.text)]
    m.leave limits .undefined

/-- Looks at the channel: without a marker the frame moves on, a marker for the label is consumed,
    and any other one is passed on. -/
def dispatch (m : Machine) (table : DispatchTable) : Next :=
  if m.thread.channel.isNone then m.advance m.frame.stack
  else
    match m.thread.channel.check? table.label with
    | none => .done m .aborted
    | some (action, channel) =>
      match table.target? action with
      | none => .done m .aborted
      | some target =>
        let m := { m with thread := { m.thread with channel := channel } }
        let m :=
          if action = .pendingOther then m
          else m.note "marker consumed"
            [("label", table.label), ("action", action.text), ("unit", m.frame.unit.name)]
        .running { m with frame := m.frame.jump m.thread.store target }

def exec (limits : Limits) (m : Machine) (i : Instruction) : Next :=
  let f := m.frame
  match i.op with
  | .const value => m.advance (value.toValue :: f.stack)
  | .load name =>
    match m.thread.store.get? name f.env with
    | some v => m.advance (v :: f.stack)
    | none => m.raiseHere i.span (.fault (.undefinedVariable name))
  | .declare name =>
    match f.stack with
    | v :: _ =>
      -- A declaration is an expression too, so its value stays on the stack.
      let store := m.thread.store.define f.env name v
      { m with thread := { m.thread with store := store } }.advance f.stack
    | [] => m.underflow
  | .store name =>
    match f.stack with
    | v :: _ =>
      -- What no environment declares becomes a global.
      let owner := (m.thread.store.owner? name f.env).getD globals
      let store := m.thread.store.define owner name v
      { m with thread := { m.thread with store := store } }.advance f.stack
    | [] => m.underflow
  | .dup =>
    match f.stack with
    | v :: _ => m.advance (v :: f.stack)
    | [] => m.underflow
  | .dup2 =>
    match f.stack with
    | b :: a :: _ => m.advance (b :: a :: f.stack)
    | _ => m.underflow
  | .pop =>
    match f.stack with
    | _ :: rest => m.advance rest
    | [] => m.underflow
  | .popResult =>
    match f.stack with
    | v :: rest => { m with frame := { f with result := v } }.advance rest
    | [] => m.underflow
  | .result => m.advance (f.result :: f.stack)
  | .binary op =>
    match f.stack with
    | right :: left :: rest =>
      let (result, store) := binaryOp m.thread.store op left right
      let m := { m with thread := { m.thread with store := store } }
      match result with
      | .ok v => m.advance (v :: rest)
      | .error t => m.raiseHere i.span t
    | _ => m.underflow
  | .unary op =>
    match f.stack with
    | v :: rest =>
      match unaryOp m.thread.store op v with
      | .ok w => m.advance (w :: rest)
      | .error t => m.raiseHere i.span t
    | [] => m.underflow
  | .makeArray count =>
    match popMany? count f.stack with
    | some (values, rest) =>
      let (ref, store) := m.thread.store.newArray values.toArray
      { m with thread := { m.thread with store := store } }.advance (.array ref :: rest)
    | none => m.underflow
  | .indexGet =>
    match f.stack with
    | index :: object :: rest =>
      match indexGet m.thread.store object index with
      | .ok v => m.advance (v :: rest)
      | .error t => m.raiseHere i.span t
    | _ => m.underflow
  | .indexSet =>
    match f.stack with
    | v :: index :: object :: rest =>
      let (result, store) := indexSet m.thread.store object index v
      let m := { m with thread := { m.thread with store := store } }
      match result with
      | .ok _ => m.advance (v :: rest)
      | .error t => m.raiseHere i.span t
    | _ => m.underflow
  | .branch ip => m.branchTo f.stack ip
  | .branchIfFalse ip =>
    match f.stack with
    | v :: rest => if v.truthy m.thread.store then m.advance rest else m.branchTo rest ip
    | [] => m.underflow
  | .branchIfTrue ip =>
    match f.stack with
    | v :: rest => if v.truthy m.thread.store then m.branchTo rest ip else m.advance rest
    | [] => m.underflow
  | .enterScope =>
    let (env, store) := m.thread.store.extend f.env
    { m with thread := { m.thread with store := store }, frame := { f with env := env } }.advance f.stack
  | .exitScope =>
    match m.thread.store.parent f.env with
    | some env => { m with frame := { f with env := env } }.advance f.stack
    | none => m.underflow
  | .iterInit =>
    match f.stack with
    | v :: rest =>
      { m with frame := { f with iters := iterOf m.thread.store v :: f.iters } }.advance rest
    | [] => m.underflow
  | .iterNext ip =>
    match f.iters with
    | it :: outer =>
      match it.elements[it.next]? with
      | some v =>
        -- The element waits in the walk until `iterBind` names it, in the scope of the round.
        let moved : Iter := { it with next := it.next + 1, current := v }
        { m with frame := { f with iters := moved :: outer } }.advance f.stack
      | none => m.branchTo f.stack ip
    | [] => m.underflow
  | .iterBind name =>
    match f.iters with
    | it :: _ =>
      let store := m.thread.store.define f.env name it.current
      { m with thread := { m.thread with store := store } }.advance f.stack
    | [] => m.underflow
  | .iterPop =>
    match f.iters with
    | _ :: outer => { m with frame := { f with iters := outer } }.advance f.stack
    | [] => m.underflow
  | .call _ count landing =>
    match popMany? count f.stack with
    -- The callee lies below its arguments. The caller waits with all of them taken off.
    | some (args, callee :: rest) =>
      m.call limits (⟨{ f with stack := rest }, landing, i.span⟩ :: m.callers) callee args
    | _ => m.underflow
  | .makeSub unit =>
    m.advance (.sub ⟨"", unit.params, f.env, some unit, unit.span⟩ :: f.stack)
  | .ret =>
    match f.stack with
    | v :: _ => m.leave limits v
    | [] => m.underflow
  | .jump target => .running { m with frame := f.jump m.thread.store target }
  | .signal marker => m.signal limits marker
  | .dispatch table => m.dispatch table
  | .tailCall count reuse =>
    if reuse then
      match f.stack with
      -- The callee gets the arguments that the frame itself was given.
      | callee :: _ => m.tailCall limits callee f.args
      | [] => m.underflow
    else
      match popMany? count f.stack with
      | some (args, callee :: _) => m.tailCall limits callee args
      | _ => m.underflow

end Machine

/-! ## Steps -/

def Limits.canceled (limits : Limits) (polls : Nat) : Bool :=
  match limits.cancelAfter with
  | some n => n < polls
  | none => false

/-- One step: a frame without an address ends, any other one runs its next instruction. After every
    `interval` instructions the machine asks whether the host wishes to stop. -/
def step (limits : Limits) (m : Machine) : Next :=
  match m.frame.ip with
  | none => m.leave limits .undefined
  | some ip =>
    match m.frame.unit.code[ip]? with
    | none =>
      m.raise m.callers (.plain s!"bytecode ip {ip} out of range in {m.frame.unit.name}")
    | some i =>
      -- The instruction counts even if the host stops the run before it is carried out.
      let steps := m.steps + 1
      if steps % limits.interval = 0 then
        let polls := m.polls + 1
        let m := { m with steps := steps, polls := polls }
        if limits.canceled polls then m.raise m.callers (.during "interrupted" .canceled)
        else m.exec limits i
      else { m with steps := steps }.exec limits i

end KestrelLang
