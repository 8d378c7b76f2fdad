import KestrelLang.Label.Resolution

/-! # Instructions and code units

* `JumpTarget` — an address with the scope and iterator depths that hold there.
* `Continuations` — where the four verbs continue for one scope.
* `DispatchTable` — what a dispatch point does with a pending marker.
* `Operation`, `Instr` — an instruction, with its place in the text.
* `CodeUnit` — the code of the main chunk, of a named sub or of a closure.
* `Program` — all units of a module. -/

namespace KestrelLang

/-- Where to continue: outside the frame, or at an address with its depths, relative to the frame. -/
inductive JumpTarget where
  | exit
  | to (ip scopes iters : Nat)
  deriving DecidableEq, Repr, Inhabited

def JumpTarget.text : JumpTarget → String
  | .exit => "exit"
  | .to ip scopes iters => s!"{ip}/s{scopes}/i{iters}"

/-- Where the verbs continue for one scope: after it, at its next round, at the start of its body,
    and before it. A block has no next round and continues after itself. -/
structure Continuations where
  after : JumpTarget
  recheck : JumpTarget
  bodyStart : JumpTarget
  entry : JumpTarget
  deriving DecidableEq, Repr, Inhabited

def Continuations.of (c : Continuations) : MarkerKind → JumpTarget
  | .exit => c.after
  | .proceed => c.recheck
  | .restart => c.bodyStart
  | .jump => c.entry
  | .unknown _ => c.after

/-- What a dispatch point does: markers for `label` continue as `targets` says, all others at
    `onward`. A scope without a label consumes nothing and has no targets. -/
structure DispatchTable where
  label : String
  targets : Option Continuations
  onward : JumpTarget
  deriving DecidableEq, Repr, Inhabited

def DispatchTable.target? (t : DispatchTable) : DispatchAction → Option JumpTarget
  | .none => none
  | .exit => t.targets.map (·.after)
  | .proceed => t.targets.map (·.recheck)
  | .restart => t.targets.map (·.bodyStart)
  | .jump => t.targets.map (·.entry)
  | .pendingOther => some t.onward

inductive Literal where
  | undefined
  | int (value : Int64)
  | float (value : Float)
  | str (value : String)
  deriving Inhabited

/-- The operations of the machine; `U` is the type of code units. -/
inductive Operation (U : Type) where
  | const (value : Literal)
  | load (name : String)
  | declare (name : String)
  | store (name : String)
  | dup
  | dup2
  | pop
  | popResult
  | result
  | binary (op : BinaryOp)
  | unary (op : UnaryOp)
  | makeArray (count : Nat)
  | indexGet
  | indexSet
  | branch (ip : Nat)
  | branchIfFalse (ip : Nat)
  | branchIfTrue (ip : Nat)
  | enterScope
  | exitScope
  | iterInit
  | iterNext (ip : Nat)
  | iterBind (name : String)
  | iterPop
  | call (callee : String) (count : Nat) (landing : JumpTarget)
  | makeSub (unit : U)
  | ret
  | jump (target : JumpTarget)
  | signal (marker : Marker)
  | dispatch (table : DispatchTable)
  | tailCall (count : Nat) (reuse : Bool)
  deriving Inhabited

structure Instr (U : Type) where
  op : Operation U
  span : Span
  deriving Inhabited

/-- The code of the main chunk, of a named sub or of a closure (whose name is empty). -/
structure CodeUnit where
  name : String
  params : List String
  isSub : Bool
  code : Array (Instr CodeUnit)
  resolution : Label.Resolution
  span : Span
  origin : String

instance : Inhabited CodeUnit := ⟨⟨"", [], false, #[], default, .zero, ""⟩⟩

abbrev Instruction := Instr CodeUnit

/-- All units of a module. `subs` has the named subs in increasing order of their names; a closure
    comes after the closures inside it. -/
structure Program where
  main : CodeUnit
  subs : List CodeUnit
  closures : List CodeUnit
  warnings : List String
  origin : String
  deriving Inhabited

namespace Program

def units (p : Program) : List CodeUnit := p.main :: p.subs ++ p.closures

def labelReport (p : Program) : List Label.LabelStat :=
  Label.report (p.units.map (·.resolution))

end Program

/-! ## Names of operations -/

def operationNames : List String :=
  ["const", "load", "declare", "store", "dup", "dup2", "pop", "pop_result", "result", "binary",
    "unary", "make_array", "index_get", "index_set", "branch", "branch_if_false", "branch_if_true",
    "enter_scope", "exit_scope", "iter_init", "iter_next", "iter_bind", "iter_pop", "call",
    "make_sub", "return", "jump", "signal", "dispatch", "tail_call"]

def Operation.name {U : Type} : Operation U → String
  | .const _ => "const"
  | .load _ => "load"
  | .declare _ => "declare"
  | .store _ => "store"
  | .dup => "dup"
  | .dup2 => "dup2"
  | .pop => "pop"
  | .popResult => "pop_result"
  | .result => "result"
  | .binary _ => "binary"
  | .unary _ => "unary"
  | .makeArray _ => "make_array"
  | .indexGet => "index_get"
  | .indexSet => "index_set"
  | .branch _ => "branch"
  | .branchIfFalse _ => "branch_if_false"
  | .branchIfTrue _ => "branch_if_true"
  | .enterScope => "enter_scope"
  | .exitScope => "exit_scope"
  | .iterInit => "iter_init"
  | .iterNext _ => "iter_next"
  | .iterBind _ => "iter_bind"
  | .iterPop => "iter_pop"
  | .call .. => "call"
  | .makeSub _ => "make_sub"
  | .ret => "return"
  | .jump _ => "jump"
  | .signal _ => "signal"
  | .dispatch _ => "dispatch"
  | .tailCall .. => "tail_call"

end KestrelLang
