import KestrelLang.Machine.Run
import KestrelLang.Proofs.Value.Nesting
import KestrelLang.Proofs.Value.Troubles

/-! # What a step can be

The functions behind a step branch on the instruction, the callee, the limits and the channel. What each of them can
come to is said here once, as a relation between a machine and the state after it; what every step keeps is then shown
case by case.

* `Frame.instruction?` — what a frame is about to run.
* `Machine.call?`, `Frame.tailCall?` — the call that a frame is about to make, or the tail call that it parks.
* `Frame.Meets` — an operation has no result for what it finds.
* `Machine.ticked`, `Machine.Stopped` — fetching an instruction moves the counters on, and may end the run.
* `Machine.Entered`, `Machine.Called`, `Machine.Left` — a callee starts, a call is made, a frame ends.
* `Machine.Executed` — an instruction is run, apart from the values that it computes.
* `Machine.Stepped`, `stepped` — a step. -/

namespace KestrelLang

/-! ## The store and the channel -/

section Environments

variable {s : Store}

theorem grows_binaryOp (op : BinaryOp) (left right : Value) : s.Grows (binaryOp s op left right).2 := by
  refine .of_envs_eq ?_
  unfold binaryOp
  dsimp only
  repeat' split
  all_goals rfl

theorem grows_indexSet (object index v : Value) : s.Grows (indexSet s object index v).2 := by
  refine .of_envs_eq ?_
  unfold indexSet
  repeat' split
  all_goals rfl

theorem grows_apply (b : Builtin) (limit : Option Nat) (out : String) (args : List Value) :
    s.Grows (b.apply limit s out args).store := by
  refine .of_envs_eq ?_
  unfold Builtin.apply writeText pushOnto
  dsimp only
  repeat' split
  all_goals rfl

theorem grows_bindParams (s : Store) (env : Nat) (params : List String) (args : List Value) :
    s.Grows (Machine.bindParams s env params args) := by
  induction params generalizing s args with
  | nil => exact .refl s
  | cons param params ih => cases args <;> exact (Store.Grows.define ..).trans (ih _ _)

end Environments

/-- A look at the channel passes a marker on, or leaves the channel empty. -/
theorem Channel.of_check?_eq_some {c channel : Channel} {label : String} {action : DispatchAction}
    (h : c.check? label = some (action, channel)) : channel = none ∨ action = .pendingOther ∧ channel = c := by
  unfold check? at h
  split at h
  · cases h
    exact .inl rfl
  · split at h
    · cases h
      exact .inr ⟨rfl, rfl⟩
    · obtain ⟨action', -, heq⟩ := Option.map_eq_some_iff.mp h
      cases heq
      exact .inl rfl

/-! ## What a frame is about to do -/

/-- The instruction that a frame is about to run. -/
def Frame.instruction? (f : Frame) : Option Instruction := f.ip.bind fun ip => f.unit.code[ip]?

theorem Frame.instruction?_eq_some {f : Frame} {i : Instruction} :
    f.instruction? = some i ↔ ∃ ip, f.ip = some ip ∧ f.unit.code[ip]? = some i :=
  Option.bind_eq_some_iff

@[simp] theorem Frame.unit_jump (f : Frame) (s : Store) (target : JumpTarget) : (f.jump s target).unit = f.unit := by
  cases target <;> rfl

/-- The operation itself meets the fault, with what it finds on the stack and in the store. -/
inductive Frame.Meets (s : Store) (f : Frame) : Operation CodeUnit → FaultCause → Prop
  | load {name : String} : s.get? name f.env = none → Meets s f (.load name) (.undefinedVariable name)
  | binary {op : BinaryOp} {left right : Value} {rest : List Value} {cause : FaultCause} :
    f.stack = right :: left :: rest → (binaryOp s op left right).1 = .error (.fault cause) →
    Meets s f (.binary op) cause
  | unary {op : UnaryOp} {v : Value} {rest : List Value} {cause : FaultCause} :
    f.stack = v :: rest → unaryOp s op v = .error (.fault cause) → Meets s f (.unary op) cause
  | indexGet {object index : Value} {rest : List Value} {cause : FaultCause} :
    f.stack = index :: object :: rest → indexGet s object index = .error (.fault cause) → Meets s f .indexGet cause
  | indexSet {object index v : Value} {rest : List Value} {cause : FaultCause} :
    f.stack = v :: index :: object :: rest → (indexSet s object index v).1 = .error (.fault cause) →
      Meets s f .indexSet cause

/-- The operation ends its frame before anything else is done. -/
def Operation.endsFrame {U : Type} : Operation U → Bool
  | .ret | .signal _ | .tailCall .. => true
  | _ => false

/-- A call that a frame is about to make, on behalf of `callers`. -/
structure CallRequest where
  callers : List Suspended
  callee : Value
  args : List Value

def Machine.call? (m : Machine) : Option CallRequest :=
  m.frame.instruction?.bind fun i =>
    match i.op with
    | .call _ count landing =>
      match Machine.popMany? count m.frame.stack with
      | some (args, callee :: rest) =>
        some ⟨⟨{ m.frame with stack := rest }, landing, i.span⟩ :: m.callers, callee, args⟩
      | _ => none
    | _ => none

/-- The tail call that a frame is about to park: the callee and the arguments on its stack, or the callee
    with the frame's own arguments. -/
def Frame.tailCall? (f : Frame) : Option (TailCall Value) :=
  f.instruction?.bind fun i =>
    match i.op with
    | .tailCall count reuse =>
      if reuse then f.stack.head?.map fun callee => ⟨callee, f.args⟩
      else
        match Machine.popMany? count f.stack with
        | some (args, callee :: _) => some ⟨callee, args⟩
        | _ => none
    | _ => none

/-! ## Machines on the way -/

namespace Machine

/-- The machine once it has counted an instruction, and its look at the host's wish if one is due. -/
def ticked (interval : Nat) (m : Machine) : Machine :=
  { m with
    steps := m.steps + 1
    polls := if (m.steps + 1) % interval = 0 then m.polls + 1 else m.polls }

def Stopped (limits : Limits) (m : Machine) : Prop :=
  (m.steps + 1) % limits.interval = 0 ∧ limits.canceled (m.polls + 1) = true

def oneDeeper (m : Machine) : Machine :=
  { m with thread := { m.thread with
      depth := m.thread.depth + 1
      peak := max m.thread.peak (m.thread.depth + 1) } }

def withEffect (m : Machine) (e : Effect) : Machine :=
  { m with thread := { m.thread with store := e.store }, out := e.out }

def started (m : Machine) (callers : List Suspended) (closure : Nat) (unit : CodeUnit) (args : List Value) :
    Machine :=
  let (env, store) := m.thread.store.extend closure
  let store := bindParams store env unit.params args
  { m with
    thread := { m.thread with store := store }
    frame := .start unit env (store.depth env) args
    callers := callers }

variable {m : Machine} {limits : Limits} {callers : List Suspended} {callee : Value} {args : List Value}
  {i : Instruction} {v : Value} {next : Next}

/-! ## Calls -/

/-- What comes of a callee that is to start on behalf of `callers`. -/
inductive Entered (limits : Limits) (m : Machine) (callers : List Suspended) (args : List Value) :
    Value → Next → Prop
  | starts {f : SubValue} {unit : CodeUnit} : f.code = some unit →
      Entered limits m callers args (.sub f) (.running (m.started callers f.closure unit args))
  | noCode {f : SubValue} : f.code = none →
      Entered limits m callers args (.sub f) (m.raiseTrouble callers (.fault (.noCode f.name)))
  | arity {name : String} {arity : Int} {impl : Option Builtin} : 0 ≤ arity → (args.length : Int) ≠ arity →
      Entered limits m callers args (.native name arity impl)
        (m.raiseTrouble callers (.fault (.arity name arity args.length)))
  | hollow {name : String} {arity : Int} :
      Entered limits m callers args (.native name arity none) (.done m .aborted)
  | delivers {name : String} {arity : Int} {b : Builtin} {v : Value} :
      (b.apply limits.outLimit m.thread.store m.out args).result = .ok v →
      Entered limits m callers args (.native name arity (some b))
        ((m.withEffect (b.apply limits.outLimit m.thread.store m.out args)).deliver callers v)
  | fails {name : String} {arity : Int} {b : Builtin} {t : Trouble} :
      (b.apply limits.outLimit m.thread.store m.out args).result = .error t →
      Entered limits m callers args (.native name arity (some b))
        ((m.withEffect (b.apply limits.outLimit m.thread.store m.out args)).raiseTrouble callers t)
  | notCallable {callee : Value} : (∀ f, callee ≠ .sub f) → (∀ name arity impl, callee ≠ .native name arity impl) →
      Entered limits m callers args callee (m.raiseTrouble callers (.fault (.notCallable callee.kindText)))

theorem entered (limits : Limits) (m : Machine) (callers : List Suspended) (callee : Value) (args : List Value) :
    m.Entered limits callers args callee (m.enter limits callers callee args) := by
  unfold enter
  split
  · split
    · exact .noCode ‹_›
    · exact .starts ‹_›
  · split
    · rename_i hwrong
      exact .arity hwrong.1 hwrong.2
    · split
      · exact .hollow
      · dsimp only
        split
        · exact .delivers ‹_›
        · exact .fails ‹_›
  · exact .notCallable ‹_› ‹_›

/-- What comes of a call: it is refused, or its callee is entered one call deeper. -/
inductive Called (limits : Limits) (m : Machine) (callers : List Suspended) (callee : Value) (args : List Value) :
    Next → Prop
  | refused {limit : Nat} : limits.maxDepth = some limit → limit < m.thread.depth + 1 →
      Called limits m callers callee args (m.oneDeeper.raiseTrouble callers (.fault (.depthExceeded limit)))
  | admitted {next : Next} : (∀ limit, limits.maxDepth = some limit → m.thread.depth + 1 ≤ limit) →
      m.oneDeeper.Entered limits callers args callee next → Called limits m callers callee args next

theorem called (limits : Limits) (m : Machine) (callers : List Suspended) (callee : Value) (args : List Value) :
    m.Called limits callers callee args (m.call limits callers callee args) := by
  unfold call
  dsimp only
  split
  · rename_i limit hlimit
    split
    · exact .refused hlimit ‹_›
    · refine .admitted (fun l hl => ?_) (entered ..)
      cases hlimit.symm.trans hl
      exact Nat.le_of_not_lt ‹_›
  · rename_i hnone
    refine .admitted (fun l hl => ?_) (entered ..)
    cases hnone.symm.trans hl

/-- What comes of a frame that ends with a value. -/
inductive Left (limits : Limits) (m : Machine) (v : Value) : Next → Prop
  | ended : m.callers = [] → m.base = .program → Left limits m v (.done m (.value v))
  | astray : v.isTailCalled = true → m.thread.trampoline = none →
      Left limits m v (m.raise m.callers (.plain missingTailCallText))
  | replaced {parked : TailCall Value} {next : Next} : ¬ (m.callers.isEmpty ∧ m.base = .program) →
      v.isTailCalled = true → m.thread.trampoline = some parked →
      Entered limits { m with thread := { m.thread with trampoline := none } } m.callers parked.args parked.target
        next →
      Left limits m v next
  | delivers : ¬ (m.callers.isEmpty ∧ m.base = .program) → v.isTailCalled = false →
      Left limits m v (m.deliver m.callers v)

theorem left (limits : Limits) (m : Machine) (v : Value) : m.Left limits v (m.leave limits v) := by
  unfold leave
  split
  · rename_i hend
    exact .ended (List.isEmpty_iff.mp hend.1) hend.2
  · rename_i hend
    split
    · rename_i hv
      split
      · exact .astray hv ‹_›
      · exact .replaced hend hv ‹_› (entered ..)
    · exact .delivers hend (Bool.not_eq_true _ ▸ ‹_›)

theorem Left.entered {c : TailCall Value}
    (h : Left limits { m with thread := { m.thread with trampoline := some c } } .tailCalled next)
    (hslot : m.thread.trampoline = none) (hend : ¬ (m.callers.isEmpty ∧ m.base = .program)) :
    m.Entered limits m.callers c.args c.target next := by
  cases h with
  | ended hcallers hbase => exact absurd ⟨List.isEmpty_iff.mpr hcallers, hbase⟩ hend
  | astray _ hnone => cases hnone
  | replaced _ _ hparked hentered =>
    cases hparked
    rwa [← hslot] at hentered
  | delivers _ hv => cases hv

/-! ## Instructions -/

/-- What comes of an instruction. Within its frame nothing else than the frame and the store changes. -/
inductive Executed (limits : Limits) (m : Machine) (i : Instruction) : Next → Prop
  | within {store : Store} {frame : Frame} : m.thread.store.Grows store → frame.unit = m.frame.unit →
      Executed limits m i
        (.running { m with thread := { m.thread with store := store }, frame := frame })
  | unbound {name : String} : i.op = .load name → m.thread.store.get? name m.frame.env = none →
      Executed limits m i (m.raiseHere i.span (.fault (.undefinedVariable name)))
  | fails {store : Store} {t : Trouble} : i.op.endsFrame = false → m.thread.store.Grows store → t.OfOperands →
      (∀ cause, t = .fault cause → m.frame.Meets m.thread.store i.op cause) →
      Executed limits m i ({ m with thread := { m.thread with store := store } }.raiseHere i.span t)
  | aborts : Executed limits m i (.done m .aborted)
  | calls {name : String} {count : Nat} {landing : JumpTarget} {args rest : List Value} {callee : Value}
      {next : Next} : i.op = .call name count landing → popMany? count m.frame.stack = some (args, callee :: rest) →
      m.Called limits (⟨{ m.frame with stack := rest }, landing, i.span⟩ :: m.callers) callee args next →
      Executed limits m i next
  | returns {v : Value} {next : Next} : i.op = .ret → v ∈ m.frame.stack → m.Left limits v next →
      Executed limits m i next
  | collides {marker pending : Marker} : i.op = .signal marker → m.thread.channel = some pending →
      Executed limits m i (m.raise m.callers (.during ("register " ++ marker.text) .channelOccupied))
  | signals {marker : Marker} {events : List Event} {next : Next} : i.op = .signal marker →
      m.thread.channel = none →
      Left limits { m with thread := { m.thread with channel := some marker }, events := events } .undefined next →
      Executed limits m i next
  | dispatches {table : DispatchTable} {marker : Marker} {action : DispatchAction} {channel : Channel}
      {target : JumpTarget} {events : List Event} : i.op = .dispatch table → m.thread.channel = some marker →
      Channel.check? (some marker) table.label = some (action, channel) → table.target? action = some target →
      Executed limits m i
        (.running { m with
          thread := { m.thread with channel := channel }
          frame := m.frame.jump m.thread.store target
          events := events })
  | occupied {count : Nat} {reuse : Bool} {parked : TailCall Value} : i.op = .tailCall count reuse →
      m.thread.trampoline = some parked →
      Executed limits m i (m.raise m.callers (.during "tail call" .trampolineOccupied))
  | parks {count : Nat} {reuse : Bool} {c : TailCall Value} {next : Next} : i.op = .tailCall count reuse →
      (m.frame.instruction? = some i → m.frame.tailCall? = some c) → m.thread.trampoline = none →
      Left limits { m with thread := { m.thread with trampoline := some c } } .tailCalled next →
      Executed limits m i next

theorem call?_of_fetch (hi : m.frame.instruction? = some i) {name : String} {count : Nat} {landing : JumpTarget}
    (hop : i.op = .call name count landing) {args rest : List Value} {callee : Value}
    (hpop : popMany? count m.frame.stack = some (args, callee :: rest)) :
    m.call? = some ⟨⟨{ m.frame with stack := rest }, landing, i.span⟩ :: m.callers, callee, args⟩ := by
  simp only [call?, hi, Option.bind_some, hop, hpop]

theorem executed_dispatch (limits : Limits) {table : DispatchTable} (hop : i.op = .dispatch table) :
    m.Executed limits i (m.dispatch table) := by
  unfold dispatch
  cases hchannel : m.thread.channel with
  | none => exact .within (.refl _) rfl
  | some marker =>
    rw [if_neg nofun]
    split
    · exact .aborts
    · rename_i hcheck
      split
      · exact .aborts
      · rename_i htarget
        dsimp only
        split <;> exact .dispatches hop hchannel hcheck htarget

theorem executed_tailCall (limits : Limits) {count : Nat} {reuse : Bool} (hop : i.op = .tailCall count reuse)
    (hparks : m.frame.instruction? = some i → m.frame.tailCall? = some ⟨callee, args⟩) :
    m.Executed limits i (m.tailCall limits callee args) := by
  unfold tailCall
  cases hslot : m.thread.trampoline with
  | none => exact .parks hop hparks hslot (left ..)
  | some parked => exact .occupied hop hslot

theorem executed_signal (limits : Limits) {marker : Marker} (hop : i.op = .signal marker) :
    m.Executed limits i (m.signal limits marker) := by
  unfold signal
  cases hchannel : m.thread.channel with
  | none => exact .signals hop hchannel (left ..)
  | some pending => exact .collides hop hchannel

theorem executed (limits : Limits) (m : Machine) (i : Instruction) : m.Executed limits i (m.exec limits i) := by
  cases hop : i.op <;> simp only [exec, hop]
  case call =>
    split
    · exact .calls hop ‹_› (called ..)
    · exact .aborts
  case ret =>
    split
    · rename_i hstack
      exact .returns hop (hstack ▸ List.mem_cons_self) (left ..)
    · exact .aborts
  case signal => exact executed_signal limits hop
  case dispatch => exact executed_dispatch limits hop
  case tailCall =>
    split
    · rename_i hreuse
      split
      · rename_i hstack
        refine executed_tailCall limits hop fun hi => ?_
        simp [Frame.tailCall?, hi, hop, hreuse, hstack]
      · exact .aborts
    · rename_i hreuse
      split
      · rename_i hpop
        refine executed_tailCall limits hop fun hi => ?_
        simp [Frame.tailCall?, hi, hop, hreuse, hpop]
      · exact .aborts
  case load =>
    split
    · exact .within (.refl _) rfl
    · exact .unbound hop ‹_›
  case binary =>
    split
    · rename_i hstack
      split
      · exact .within (grows_binaryOp ..) rfl
      · rename_i hresult
        refine .fails (hop ▸ rfl) (grows_binaryOp ..) (binaryOp_trouble hresult) fun cause hcause => ?_
        exact hop ▸ .binary hstack (hcause ▸ hresult)
    · exact .aborts
  case unary =>
    split
    · rename_i hstack
      split
      · exact .within (.refl _) rfl
      · rename_i hresult
        refine .fails (hop ▸ rfl) (.refl _) (unaryOp_trouble hresult) fun cause hcause => ?_
        exact hop ▸ .unary hstack (hcause ▸ hresult)
    · exact .aborts
  case indexGet =>
    split
    · rename_i hstack
      split
      · exact .within (.refl _) rfl
      · rename_i hresult
        refine .fails (hop ▸ rfl) (.refl _) (indexGet_trouble hresult) fun cause hcause => ?_
        exact hop ▸ .indexGet hstack (hcause ▸ hresult)
    · exact .aborts
  case indexSet =>
    split
    · rename_i hstack
      split
      · exact .within (grows_indexSet ..) rfl
      · rename_i hresult
        refine .fails (hop ▸ rfl) (grows_indexSet ..) (indexSet_trouble hresult) fun cause hcause => ?_
        exact hop ▸ .indexSet hstack (hcause ▸ hresult)
    · exact .aborts
  case jump target => exact .within (.refl _) (m.frame.unit_jump _ target)
  case makeArray =>
    split
    · exact .within (.of_envs_eq rfl) rfl
    · exact .aborts
  case enterScope => exact .within (.extend ..) rfl
  -- What is left binds a name or leaves the store as it is, or finds its stack too low.
  all_goals repeat' split
  all_goals first
    | exact .within (.refl _) rfl
    | exact .within (.define ..) rfl
    | exact .aborts

/-! ## Steps -/

inductive Stepped (limits : Limits) (m : Machine) : Next → Prop
  | ends : m.frame.ip = none → Stepped limits m (m.leave limits .undefined)
  | strays {text : String} : m.frame.instruction? = none → Stepped limits m (m.raise m.callers (.plain text))
  | stops {i : Instruction} : m.frame.instruction? = some i → m.Stopped limits →
      Stepped limits m ((m.ticked limits.interval).raise m.callers (.during "interrupted" .canceled))
  | runs {i : Instruction} : m.frame.instruction? = some i → ¬ m.Stopped limits →
      Stepped limits m ((m.ticked limits.interval).exec limits i)

theorem step_of_stopped (hi : m.frame.instruction? = some i) (h : m.Stopped limits) :
    step limits m = (m.ticked limits.interval).raise m.callers (.during "interrupted" .canceled) := by
  obtain ⟨ip, hip, hi⟩ := Frame.instruction?_eq_some.mp hi
  simp only [step, hip, hi, ticked, if_pos h.1, if_pos h.2]

theorem step_of_fetch (hi : m.frame.instruction? = some i) (h : ¬ m.Stopped limits) :
    step limits m = (m.ticked limits.interval).exec limits i := by
  obtain ⟨ip, hip, hi⟩ := Frame.instruction?_eq_some.mp hi
  simp only [step, hip, hi, ticked]
  by_cases hdue : (m.steps + 1) % limits.interval = 0
  · rw [if_pos hdue, if_pos hdue, if_neg fun hcanceled => h ⟨hdue, hcanceled⟩]
  · rw [if_neg hdue, if_neg hdue]

end Machine

theorem stepped (limits : Limits) (m : Machine) : m.Stepped limits (step limits m) := by
  cases hi : m.frame.instruction? with
  | none =>
    cases hip : m.frame.ip with
    | none =>
      simp only [step, hip]
      exact .ends hip
    | some ip =>
      have hcode : m.frame.unit.code[ip]? = none := by simpa [Frame.instruction?, hip] using hi
      simp only [step, hip, hcode]
      exact .strays hi
  | some i =>
    by_cases hstopped : m.Stopped limits
    · rw [Machine.step_of_stopped hi hstopped]
      exact .stops hi hstopped
    · rw [Machine.step_of_fetch hi hstopped]
      exact .runs hi hstopped

end KestrelLang
