import KestrelLang.Code.Lowering
import KestrelLang.Machine.Run

/-! # The meaning of a unit, read off its text

* `Stage`, `Stop`, `Eval` — evaluation changes a stage and may stop; without enough fuel it has no end.
* `World` — what evaluation has to know about the unit and the run.
* `evalExpr` — the value of an expression, operands from left to right.
* `Ending` — how a statement ends: in order, on its way to a scope around it, or with a value for the caller.
* `cycle` — a loop unfolds as often as the fuel allows.
* `evalStmt`, `evalUnit` — the meaning of a statement and of a whole unit.

Nothing here looks at instructions. Calls are made by the machine, and a closure carries the unit that its
body is lowered to. -/

namespace KestrelLang

open KestrelLang.Code KestrelLang.Label

/-! ## Evaluation -/

/-- What evaluation changes. `result` is the value of the last expression that stood as a statement. -/
structure Stage where
  thread : Thread
  out : String
  events : List Event
  result : Value

def Stage.alone (σ : Stage) : Machine := { σ.thread.machine .call with out := σ.out, events := σ.events }

inductive Stop where
  | failed (f : Failure)
  | aborted
  /-- A call came back with a marker pending. -/
  | interrupted

/-- Evaluation gives a value or stops; it gives nothing if the fuel ends first. -/
def Eval (α : Type) := Stage → Option (Except Stop α × Stage)

namespace Eval

instance : Monad Eval where
  pure a := fun σ => some (.ok a, σ)
  bind x f := fun σ =>
    match x σ with
    | none => none
    | some (.error stop, σ') => some (.error stop, σ')
    | some (.ok a, σ') => f a σ'

def exhausted {α : Type} : Eval α := fun _ => none

def stop {α : Type} (s : Stop) : Eval α := fun σ => some (.error s, σ)

def store : Eval Store := fun σ => some (.ok σ.thread.store, σ)

def extend (env : Nat) : Eval Nat := fun σ =>
  let (inner, s) := σ.thread.store.extend env
  some (.ok inner, { σ with thread := { σ.thread with store := s } })

def keep (v : Value) : Eval Unit := fun σ => some (.ok (), { σ with result := v })

def result : Eval Value := fun σ => some (.ok σ.result, σ)

end Eval

/-- What evaluation has to know: the limits of the run, the fuel, and the name, the sort, the origin and the
    arguments of the unit. -/
structure World where
  limits : Limits
  fuel : Nat
  name : String
  info : UnitInfo
  args : List Value

namespace World

def stopOf (w : World) (span : Span) : Trouble → Stop
  | .fault cause => .failed (.fault ⟨cause, span, w.info.origin, []⟩)
  | .failed message => .failed (.plain message)
  | .abort => .aborted

def act (w : World) (span : Span) (f : Store → Except Trouble Value × Store) : Eval Value := fun σ =>
  let (result, s) := f σ.thread.store
  let σ' := { σ with thread := { σ.thread with store := s } }
  match result with
  | .ok v => some (.ok v, σ')
  | .error t => some (.error (w.stopOf span t), σ')

def load (w : World) (env : Nat) (name : String) (span : Span) : Eval Value :=
  w.act span fun s =>
    match s.get? name env with
    | some v => (.ok v, s)
    | none => (.error (.fault (.undefinedVariable name)), s)

def declare (w : World) (env : Nat) (name : String) (v : Value) (span : Span) : Eval Value :=
  w.act span fun s => (.ok v, s.define env name v)

/-- Gives a new value to the nearest binding of a name; without one the name becomes a global. -/
def assign (w : World) (env : Nat) (name : String) (v : Value) (span : Span) : Eval Value :=
  w.act span fun s => (.ok v, s.define ((s.owner? name env).getD globals) name v)

def operate (w : World) (op : BinaryOp) (left right : Value) (span : Span) : Eval Value :=
  w.act span fun s => binaryOp s op left right

def fetch (w : World) (object index : Value) (span : Span) : Eval Value :=
  w.act span fun s => (indexGet s object index, s)

/-- Changes an element of an array; the value is the new element. -/
def put (w : World) (object index v : Value) (span : Span) : Eval Value :=
  w.act span fun s => ((indexSet s object index v).1.map fun _ => v, (indexSet s object index v).2)

def throughCall (w : World) (span : Span) : Failure → Failure
  | .fault f => .fault (f.throughCall w.info.origin span)
  | other => other

def invoke (w : World) (callee : Value) (args : List Value) (span : Span) : Eval Value := fun σ =>
  match iterate w.limits w.fuel (σ.alone.call w.limits [] callee args) with
  | none => none
  | some (m', outcome) =>
    let σ' := { σ with thread := m'.thread, out := m'.out, events := m'.events }
    match outcome with
    | .value v => some (if m'.thread.channel.isSome then .error .interrupted else .ok v, σ')
    | .failure f => some (.error (.failed (w.throughCall span f)), σ')
    | .aborted => some (.error .aborted, σ')

end World

/-! ## Expressions -/

def closureUnit (origin : String) (params : List Name) (body : Block) (span : Span) : CodeUnit :=
  match lowerBody (.ofUnit true origin) "" params span body ⟨[], [], [], []⟩ with
  | .ok (unit, _) => unit
  | .error _ => default

def closureValue (unit : CodeUnit) (env : Nat) : Value := .sub ⟨"", unit.params, env, some unit, unit.span⟩

mutual

def evalExpr (w : World) (env : Nat) : Expr → Eval Value
  | .missing | .undefined _ => return .undefined
  | .int value _ => return .int value
  | .float value _ => return .float value
  | .str value _ => return .str value
  | .ident name span => w.load env name span
  | .array elements _ => do
    let values ← evalExprs w env elements
    w.act .zero fun s => (.ok (.array (s.newArray values.toArray).1), (s.newArray values.toArray).2)
  | .index object index span => do
    let o ← evalExpr w env object
    let i ← evalExpr w env index
    w.fetch o i span
  | .unary op operand span => do
    let v ← evalExpr w env operand
    w.act span fun s => (unaryOp s op v, s)
  | .binary op left right span => do
    let a ← evalExpr w env left
    let s ← Eval.store
    if op = .and && !a.truthy s || op = .or && a.truthy s then return a
    let b ← evalExpr w env right
    if op = .and || op = .or then return b
    w.operate op a b span
  | .assign op (.ident name place) right span =>
    match op.binary? with
    | some f => do
      let old ← w.load env name place
      let v ← evalExpr w env right
      let new ← w.operate f old v span
      w.assign env name new span
    | none => do
      let v ← evalExpr w env right
      if op = .declare then w.declare env name v span else w.assign env name v span
  | .assign op (.index object index place) right span => do
    let o ← evalExpr w env object
    let i ← evalExpr w env index
    match op.binary? with
    | some f => do
      let old ← w.fetch o i place
      let v ← evalExpr w env right
      let new ← w.operate f old v span
      w.put o i new span
    | none => do
      let v ← evalExpr w env right
      w.put o i v span
  -- Nothing else can be assigned to.
  | .assign .. => Eval.stop .aborted
  | .call callee args span => do
    let f ← evalExpr w env callee
    let values ← evalExprs w env args
    w.invoke f values span
  | .closure params body span => return closureValue (closureUnit w.info.origin params body span) env

def evalExprs (w : World) (env : Nat) : List Expr → Eval (List Value)
  | [] => return []
  | e :: es => do
    let v ← evalExpr w env e
    let vs ← evalExprs w env es
    return v :: vs

end

def evalTest (w : World) (env : Nat) (test : Expr) (negate : Bool) : Eval Bool := do
  let v ← evalExpr w env test
  let s ← Eval.store
  return v.truthy s != negate

/-! ## Loops -/

/-- How a statement ends: in order, on its way to a scope around it, or with a value for the caller. -/
inductive Ending where
  | normal
  | leaves (scope : Nat) (kind : MarkerKind)
  | returns (v : Value)

/-- What comes after a statement, if that ends in order. -/
def Ending.andThen (rest : Eval Ending) : Ending → Eval Ending
  | .normal => rest
  | .leaves scope kind => return .leaves scope kind
  | .returns v => return .returns v

/-- What a scope makes of the end of its body: the verbs that aim at it continue as `verb` says, and all
    others leave the scope. -/
def Ending.within (scope : Nat) (normal : Eval Ending) (verb : MarkerKind → Eval Ending) :
    Ending → Eval Ending
  | .normal => normal
  | .leaves target kind => if target = scope then verb kind else return .leaves target kind
  | .returns v => return .returns v

/-- Unfolds a loop as often as the fuel allows; `φ` are the places where a loop can go on. -/
def cycle {φ : Type} (unfold : (φ → Eval Ending) → φ → Eval Ending) : (fuel : Nat) → φ → Eval Ending
  | 0, _ => Eval.exhausted
  | fuel + 1, place => unfold (cycle unfold fuel) place

/-- A bare block runs once, unless a verb enters it again. -/
def bareBlock (scope : Nat) (body : Eval Ending) (again : Unit → Eval Ending) : Unit → Eval Ending
  | () => do
    (← body).within scope (return .normal) fun
      | .exit | .proceed | .unknown _ => return .normal
      | .restart | .jump => again ()

inductive WhilePlace where
  | test | round

/-- A loop with a test: rounds while the test holds. -/
def whileLoop (scope : Nat) (test : Eval Bool) (body : Eval Ending) (again : WhilePlace → Eval Ending) :
    WhilePlace → Eval Ending
  | .test => do if ← test then again .round else return .normal
  | .round => do
    (← body).within scope (again .test) fun
      | .exit | .unknown _ => return .normal
      | .proceed | .jump => again .test
      | .restart => again .round

/-- A loop with a three-part header goes on at its beginning, or in the scope of its header at the start of a
    round or at the step after one. -/
inductive ForPlace where
  | start
  | round (env : Nat)
  | step (env : Nat)

/-- A loop with a three-part header: rounds while the test holds, with a step after each. -/
def forLoop (scope : Nat) (init : Eval Nat) (test : Nat → Eval Bool) (step : Nat → Eval Unit)
    (body : Nat → Eval Ending) (again : ForPlace → Eval Ending) : ForPlace → Eval Ending
  | .start => do check (← init)
  | .round env => do
    (← body env).within scope (again (.step env)) fun
      | .exit | .unknown _ => return .normal
      | .proceed => again (.step env)
      | .restart => again (.round env)
      | .jump => again .start
  | .step env => do
    step env
    check env
where
  /-- Another round, if the test holds. -/
  check (env : Nat) : Eval Ending := do if ← test env then again (.round env) else return .normal

/-- A loop over elements goes on at its beginning, where it takes the next element, or at the start of the
    round for one. -/
inductive ForeachPlace where
  | start
  | next (it : Iter)
  | round (it : Iter)

/-- A loop over elements: a round for each of those that were collected at the beginning. -/
def foreachLoop (scope : Nat) (collect : Eval Iter) (body : Iter → Eval Ending)
    (again : ForeachPlace → Eval Ending) : ForeachPlace → Eval Ending
  | .start => do again (.next (← collect))
  | .next it =>
    match it.elements[it.next]? with
    | some v => again (.round { it with next := it.next + 1, current := v })
    | none => return .normal
  | .round it => do
    (← body it).within scope (again (.next it)) fun
      | .exit | .unknown _ => return .normal
      | .proceed => again (.next it)
      | .restart => again (.round it)
      | .jump => again .start

/-! ## Statements -/

mutual

def Stmt.scopeCount : Stmt → Nat
  | .bare _ body _ | .whileLoop _ _ _ body _ | .foreachLoop _ _ _ body _ => 1 + body.scopeCount
  | .forLoop _ init _ _ body _ => 1 + init.scopeCount + body.scopeCount
  | .block body => body.scopeCount
  | .ifChain _ _ body clauses otherwise _ =>
    body.scopeCount + clausesScopeCount clauses + otherwise.scopeCount
  | .missing | .expr _ | .verb .. | .tailCall .. | .ret .. | .sub .. => 0

def Block.scopeCount : Block → Nat
  | .missing => 0
  | .mk body _ => stmtsScopeCount body

def stmtsScopeCount : List Stmt → Nat
  | [] => 0
  | s :: rest => s.scopeCount + stmtsScopeCount rest

def clausesScopeCount : List Clause → Nat
  | [] => 0
  | .mk _ body :: rest => body.scopeCount + clausesScopeCount rest

end

def World.signal (w : World) (marker : Marker) : Eval Ending := fun σ =>
  match σ.thread.channel.register? marker with
  | none => some (.error (.failed (.during ("register " ++ marker.text) .channelOccupied)), σ)
  | some channel =>
    let event : Event := ⟨.debug, "marker registered", ("thread", toString σ.thread.id) ::
      [("marker", marker.text), ("unit", w.name), ("at", marker.span.text)]⟩
    some (.ok (.returns .undefined),
      { σ with thread := { σ.thread with channel := channel }, events := event :: σ.events })

def World.park (callee : Value) (args : List Value) : Eval Ending := fun σ =>
  match σ.thread.trampoline.park? ⟨callee, args⟩ with
  | none => some (.error (.failed (.during "tail call" .trampolineOccupied)), σ)
  | some slot =>
    some (.ok (.returns .tailCalled), { σ with thread := { σ.thread with trampoline := slot } })

def evalInit (w : World) (env : Nat) : Stmt → Eval Unit
  | .expr e => do
    let _ ← evalExpr w env e
  | _ => return

def evalOptionalTest (w : World) (env : Nat) (test : Expr) : Eval Bool :=
  if test.isMissing then return true else evalTest w env test false

def evalStep (w : World) (env : Nat) (step : Expr) : Eval Unit :=
  if step.isMissing then return
  else do
    let _ ← evalExpr w env step

mutual

/-- The meaning of a statement inside the scopes `enclosing`; `next` is the number of the next scope. -/
def evalStmt (w : World) (enclosing : List Scope) (next env : Nat) : Stmt → Eval Ending
  | .missing | .sub .. => return .normal
  | .expr e => do
    let v ← evalExpr w env e
    if !w.info.inSub then Eval.keep v
    return .normal
  | .block body => evalBlock w enclosing next env body
  | .bare label body span =>
    let s := openScope enclosing next "BareBlock" label false span
    let once := do
      let inner ← Eval.extend env
      evalScope w (s :: enclosing) (next + 1) inner body
    cycle (bareBlock s.id once) w.fuel ()
  | .whileLoop label test negate body span =>
    let s := openScope enclosing next "WhileLoop" label true span
    let round := do
      let inner ← Eval.extend env
      evalScope w (s :: enclosing) (next + 1) inner body
    cycle (whileLoop s.id (evalTest w env test negate) round) w.fuel .test
  | .forLoop label init test step body span =>
    let s := openScope enclosing next "ForLoop" label true span
    let start := do
      let header ← Eval.extend env
      evalInit w header init
      return header
    let round := fun header => do
      let inner ← Eval.extend header
      evalScope w (s :: enclosing) (next + 1 + init.scopeCount) inner body
    cycle (forLoop s.id start (evalOptionalTest w · test) (evalStep w · step) round) w.fuel .start
  | .foreachLoop label item iterable body span =>
    let s := openScope enclosing next "ForeachLoop" label true span
    let collect := do
      let v ← evalExpr w env iterable
      let store ← Eval.store
      return Machine.iterOf store v
    let round := fun (it : Iter) => do
      let inner ← Eval.extend env
      let _ ← w.declare inner item.text it.current .zero
      evalScope w (s :: enclosing) (next + 1) inner body
    cycle (foreachLoop s.id collect round) w.fuel .start
  | .ifChain test negate body clauses otherwise _ => do
    if ← evalTest w env test negate then evalBlock w enclosing next env body
    else
      evalClauses w enclosing (next + body.scopeCount) env
        (evalBlock w enclosing (next + body.scopeCount + clausesScopeCount clauses) env otherwise) clauses
  | .verb kind label span =>
    match classify w.info enclosing kind (labelText label) span with
    | .error _ => Eval.stop .aborted
    | .ok use =>
      match use.boundary with
      | some scope => return .leaves scope use.marker
      | none => w.signal ⟨use.marker, use.label, span, w.info.origin⟩
  | .tailCall callee args reuse _ => do
    let f ← evalExpr w env callee
    let values ← if reuse then pure w.args else evalExprs w env args
    World.park f values
  | .ret argument _ => do
    let v ← evalExpr w env argument
    return .returns v

/-- The meaning of a block, which opens a scope of its own. -/
def evalBlock (w : World) (enclosing : List Scope) (next env : Nat) : Block → Eval Ending
  | .missing => return .normal
  | .mk body _ => do
    let inner ← Eval.extend env
    evalStmts w enclosing next inner body

def evalScope (w : World) (enclosing : List Scope) (next env : Nat) : Block → Eval Ending
  | .missing => return .normal
  | .mk body _ => evalStmts w enclosing next env body

/-- The meaning of several statements: up to the first that does not end in order. -/
def evalStmts (w : World) (enclosing : List Scope) (next env : Nat) : List Stmt → Eval Ending
  | [] => return .normal
  | s :: rest => do
    (← evalStmt w enclosing next env s).andThen (evalStmts w enclosing (next + s.scopeCount) env rest)

/-- The meaning of the further arms of a chain of tests; `otherwise` is that of the last one. -/
def evalClauses (w : World) (enclosing : List Scope) (next env : Nat) (otherwise : Eval Ending) :
    List Clause → Eval Ending
  | [] => otherwise
  | .mk test body :: rest => do
    if ← evalTest w env test false then evalBlock w enclosing next env body
    else evalClauses w enclosing (next + body.scopeCount) env otherwise rest

end

/-! ## Units -/

/-- The meaning of a unit: the value that it returns; at its end a sub gives undef, the main chunk its last
    value. -/
def evalUnit (w : World) (env : Nat) (body : List Stmt) : Eval Value := do
  match ← evalStmts w [] 0 env body with
  | .returns v => return v
  | .normal => if w.info.inSub then return .undefined else Eval.result
  | .leaves .. => Eval.stop .aborted

end KestrelLang
