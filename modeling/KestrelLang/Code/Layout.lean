import KestrelLang.Code.Size

/-! # Layout of scopes

* `Spot` — an address with the depths that hold there.
* `bareTargets`, `whileTargets`, `forTargets`, `foreachTargets` — where the verbs continue for a scope
  whose code starts at a spot.
* `layoutStmts` — the continuations of all scopes of a list of statements, in the order of the text. -/

namespace KestrelLang.Code

open KestrelLang.Label

structure Spot where
  ip : Nat
  scopes : Nat
  iters : Nat
  deriving DecidableEq, Repr, Inhabited

namespace Spot

def start : Spot := ⟨0, 0, 0⟩

def target (p : Spot) : JumpTarget := .to p.ip p.scopes p.iters

def skip (p : Spot) (n : Nat) : Spot := { p with ip := p.ip + n }

def inner (p : Spot) (n : Nat) : Spot := { p with ip := p.ip + n, scopes := p.scopes + 1 }

end Spot

/-! ## Bare blocks -/

def bareBody (p : Spot) : Spot := p.inner 1

def bareTargets (p : Spot) (label : Option Name) (body : Block) : Continuations :=
  let after := (p.skip (1 + body.scopeSize (modeOf (labelText label) false) + 1)).target
  ⟨after, after, p.target, p.target⟩

/-! ## Loops with a test -/

def whileRound (p : Spot) (test : Expr) (negate : Bool) : Spot :=
  p.skip (test.size + oneIf negate + 1)

def whileHeaderEnd (p : Spot) (label : Option Name) (test : Expr) (negate : Bool) (body : Block) : Spot :=
  (whileRound p test negate).skip (1 + body.scopeSize (modeOf (labelText label) true) + 2)

def whileTargets (p : Spot) (label : Option Name) (test : Expr) (negate : Bool) (body : Block) :
    Continuations :=
  let after := (whileHeaderEnd p label test negate body).skip
    (oneIf (headerDispatch label test.hasCall))
  ⟨after.target, p.target, (whileRound p test negate).target, p.target⟩

/-! ## Loops with a three-part header -/

def forTest (p : Spot) (init : Stmt) : Spot := p.inner (1 + initSize init)

def forRound (p : Spot) (init : Stmt) (test : Expr) : Spot := (forTest p init).skip (optionalSize test)

def forStep (p : Spot) (label : Option Name) (init : Stmt) (test : Expr) (body : Block) : Spot :=
  (forRound p init test).skip (1 + body.scopeSize (modeOf (labelText label) true) + 1)

def forHeaderEnd (p : Spot) (label : Option Name) (init : Stmt) (test step : Expr) (body : Block) :
    Spot :=
  (forStep p label init test body).skip (optionalSize step + 1)

def forHasCall (init : Stmt) (test step : Expr) : Bool :=
  initHasCall init || test.hasCall || step.hasCall

def forClose (p : Spot) (label : Option Name) (init : Stmt) (test step : Expr) (body : Block) : Spot :=
  (forHeaderEnd p label init test step body).skip
    (oneIf (headerDispatch label (forHasCall init test step)))

def forTargets (p : Spot) (label : Option Name) (init : Stmt) (test step : Expr) (body : Block) :
    Continuations :=
  let close := forClose p label init test step body
  ⟨.to (close.ip + 1) p.scopes p.iters, (forStep p label init test body).target,
    (forRound p init test).target, p.target⟩

/-! ## Loops over elements -/

def foreachNext (p : Spot) (iterable : Expr) : Spot :=
  { p with ip := p.ip + iterable.size + 1, iters := p.iters + 1 }

def foreachEnd (p : Spot) (label : Option Name) (iterable : Expr) (body : Block) : Spot :=
  (foreachNext p iterable).skip (3 + body.scopeSize (modeOf (labelText label) true) + 2)

def foreachTargets (p : Spot) (label : Option Name) (iterable : Expr) (body : Block) :
    Continuations :=
  ⟨.to ((foreachEnd p label iterable body).ip + 1) p.scopes p.iters, (foreachNext p iterable).target,
    ((foreachNext p iterable).skip 1).target, p.target⟩

/-! ## All scopes -/

mutual

def layoutStmt (p : Spot) : Stmt → List Continuations
  | .bare label body _ =>
    bareTargets p label body :: layoutScope (modeOf (labelText label) false) (bareBody p) body
  | .whileLoop label test negate body _ =>
    whileTargets p label test negate body
      :: layoutScope (modeOf (labelText label) true) ((whileRound p test negate).inner 1) body
  | .forLoop label init test step body _ =>
    forTargets p label init test step body
      :: layoutScope (modeOf (labelText label) true) ((forRound p init test).inner 1) body
  | .foreachLoop label _ iterable body _ =>
    foreachTargets p label iterable body
      :: layoutScope (modeOf (labelText label) true) ((foreachNext p iterable).inner 3) body
  | .block body => layoutBlock p body
  | .ifChain test negate body clauses otherwise _ =>
    let first := p.skip (test.size + oneIf negate + 1)
    let more := first.skip (body.size + 1)
    layoutBlock first body ++ layoutClauses more clauses
      ++ layoutBlock (more.skip (clausesSize clauses)) otherwise
  | .missing | .expr _ | .verb .. | .tailCall .. | .ret .. | .sub .. => []

def layoutBlock (p : Spot) : Block → List Continuations
  | .missing => []
  | .mk body _ => layoutStmts .none (p.inner 1) body

def layoutScope (mode : DispatchMode) (p : Spot) : Block → List Continuations
  | .missing => []
  | .mk body _ => layoutStmts mode p body

/-- The continuations of the scopes of several statements; in the mode `perStatement` a dispatch
    point follows each of them. -/
def layoutStmts (mode : DispatchMode) (p : Spot) : List Stmt → List Continuations
  | [] => []
  | s :: rest =>
    layoutStmt p s ++ layoutStmts mode (p.skip (s.size + oneIf (mode = .perStatement))) rest

def layoutClauses (p : Spot) : List Clause → List Continuations
  | [] => []
  | .mk test body :: rest =>
    layoutBlock (p.skip (test.size + 1)) body
      ++ layoutClauses (p.skip (test.size + 1 + body.size + 1)) rest

end

end KestrelLang.Code
