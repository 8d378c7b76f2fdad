import KestrelLang.Code.Instr

/-! # Sizes of code

* `Expr.size`, `Stmt.size`, `Block.size` — how many instructions a node becomes.
* `Block.scopeSize` — how many a scope's body becomes together with its dispatch points.
* `Expr.hasCall` — whether the code of an expression holds a call.

Addresses are computed from sizes, so every branch is written with its final target. -/

namespace KestrelLang

open KestrelLang.Label

def oneIf (b : Bool) : Nat := if b then 1 else 0

mutual

def Expr.size : Expr → Nat
  | .missing | .ident .. | .str .. | .int .. | .float .. | .undefined _ | .closure .. => 1
  | .array elements _ => exprsSize elements + 1
  | .index object index _ => object.size + index.size + 1
  | .unary _ operand _ => operand.size + 1
  | .binary op left right _ =>
    match op with
    | .and | .or => left.size + 3 + right.size
    | _ => left.size + right.size + 1
  | .assign op left right _ =>
    let compound := op.binary?.isSome
    match left with
    | .index object index _ =>
      object.size + index.size + (if compound then 2 else 0) + right.size + oneIf compound + 1
    | _ => oneIf compound + right.size + oneIf compound + 1
  | .call callee args _ => callee.size + exprsSize args + 1

def exprsSize : List Expr → Nat
  | [] => 0
  | e :: es => e.size + exprsSize es

end

mutual

/-- The code of the expression holds a call; the code of a closure is not part of it. -/
def Expr.hasCall : Expr → Bool
  | .missing | .ident .. | .str .. | .int .. | .float .. | .undefined _ | .closure .. => false
  | .array elements _ => exprsHaveCall elements
  | .index object index _ => object.hasCall || index.hasCall
  | .unary _ operand _ => operand.hasCall
  | .binary _ left right _ => left.hasCall || right.hasCall
  | .assign _ left right _ => left.hasCall || right.hasCall
  | .call .. => true

def exprsHaveCall : List Expr → Bool
  | [] => false
  | e :: es => e.hasCall || exprsHaveCall es

end

/-- The size of an expression in a place that may be empty, with one more instruction if it is not. -/
def optionalSize : Expr → Nat
  | .missing => 0
  | e => e.size + 1

def initSize : Stmt → Nat
  | .expr e => e.size + 1
  | _ => 0

def initHasCall : Stmt → Bool
  | .expr e => e.hasCall
  | _ => false

/-- A labeled loop with a call in its header needs a dispatch point for the header. -/
def headerDispatch (label : Option Name) (hasCall : Bool) : Bool :=
  labelText label ≠ "" && hasCall

mutual

def Stmt.size : Stmt → Nat
  | .missing | .sub .. => 0
  | .expr e => e.size + 1
  | .block body => body.size
  | .bare label body _ => 1 + body.scopeSize (modeOf (labelText label) false) + 1
  | .whileLoop label test negate body _ =>
    test.size + oneIf negate + 1 + 1 + body.scopeSize (modeOf (labelText label) true) + 2
      + oneIf (headerDispatch label test.hasCall)
  | .forLoop label init test step body _ =>
    1 + initSize init + optionalSize test + 1 + body.scopeSize (modeOf (labelText label) true) + 1
      + optionalSize step + 1
      + oneIf (headerDispatch label (initHasCall init || test.hasCall || step.hasCall)) + 1
  | .foreachLoop label _ iterable body _ =>
    iterable.size + 2 + 2 + body.scopeSize (modeOf (labelText label) true) + 3
  | .ifChain test negate body clauses otherwise _ =>
    test.size + oneIf negate + 1 + body.size + 1 + clausesSize clauses + otherwise.size
  | .verb .. => 1
  | .tailCall callee args reuse _ => callee.size + (if reuse then 0 else exprsSize args) + 1
  | .ret argument _ => argument.size + 1

/-- The number of instructions of a block with a scope of its own; a block that is not there has
    none. -/
def Block.size : Block → Nat
  | .missing => 0
  | .mk body _ => 1 + stmtsSize body + 1

/-- The number of instructions of the body of a loop or bare block, with its dispatch points. -/
def Block.scopeSize (mode : DispatchMode) : Block → Nat
  | .missing => oneIf (mode ≠ .none)
  | .mk body _ =>
    match mode with
    | .none => stmtsSize body
    | .loopEnd => stmtsSize body + 1
    | .perStatement => if body.isEmpty then 1 else stmtsSize body + body.length

def stmtsSize : List Stmt → Nat
  | [] => 0
  | s :: rest => s.size + stmtsSize rest

def clausesSize : List Clause → Nat
  | [] => 0
  | .mk test body :: rest => test.size + 1 + body.size + 1 + clausesSize rest

end

end KestrelLang
