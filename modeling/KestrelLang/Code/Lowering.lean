import KestrelLang.Code.Layout

/-! # Lowering

* `Context` — what the code of a node depends on: the unit, the scopes around it and the landing.
* `Build` — the units made so far.
* `lowerExpr`, `lowerStmt`, … — the code of a node that starts at a given spot.
* `compile` — the program of a module.

Every unit is resolved before it is lowered. A call carries the landing where its frame continues when
the callee comes back with a pending marker: the next dispatch point on the way out. -/

namespace KestrelLang.Code

open KestrelLang.Label

/-! ## Contexts -/

structure OpenScope where
  label : String
  isLoop : Bool
  targets : Continuations
  deriving DecidableEq, Repr, Inhabited

structure Context where
  isSub : Bool
  origin : String
  enclosing : List OpenScope
  landing : JumpTarget
  deriving DecidableEq, Repr, Inhabited

namespace Context

/-- The context at the start of a unit: a marker that nothing takes leaves the frame. -/
def ofUnit (isSub : Bool) (origin : String) : Context := ⟨isSub, origin, [], .exit⟩

def landingAt (c : Context) (target : JumpTarget) : Context := { c with landing := target }

def enter (c : Context) (label : Option Name) (isLoop : Bool) (targets : Continuations) : Context :=
  { c with enclosing := ⟨labelText label, isLoop, targets⟩ :: c.enclosing }

end Context

/-- The units made so far. `names` are the subs whose lowering has begun. -/
structure Build where
  names : List String
  subs : List CodeUnit
  closures : List CodeUnit
  warnings : List String
  deriving Inhabited

abbrev Lower (α : Type) := StateT Build (Except CompileError) α

abbrev Instructions := List Instruction

def bare (op : Operation CodeUnit) : Instruction := ⟨op, .zero⟩

def placed (op : Operation CodeUnit) (span : Span) : Instruction := ⟨op, span⟩

/-- Refuses a node of a tree that no source text has; such errors do not name the text. -/
def unsupported {α : Type} (cause : CompileCause) (span : Span) : Lower α :=
  throw ⟨cause, span, ""⟩

/-! ## Pieces of code -/

def dispatchPoint (label : Option Name) (targets : Continuations) (onward : JumpTarget) (span : Span) :
    Instruction :=
  let text := labelText label
  placed (.dispatch ⟨text, if text = "" then none else some targets, onward⟩) span

def onlyIf (b : Bool) (op : Operation CodeUnit) : Instructions := if b then [bare op] else []

def negation (negate : Bool) : Instructions := onlyIf negate (.unary .not)

/-- The instruction of a verb: a jump inside the unit, or a signal to the callers. -/
def verbInstr (c : Context) (kind : MarkerKind) (label : String) (span : Span) : Instruction :=
  match boundary? OpenScope.label OpenScope.isLoop label c.enclosing with
  | some s => placed (.jump (s.targets.of kind)) span
  | none => placed (.signal ⟨kind, label, span, c.origin⟩) span

/-- The end of a unit: a sub gives undef, the main chunk its last value. -/
def unitEnd (isSub : Bool) : Instructions :=
  [bare (if isSub then .const .undefined else .result), bare .ret]

/-! ## Units -/

def openUnit (c : Context) (body : List Stmt) : Lower Resolution := do
  let r ← StateT.lift (resolve ⟨c.isSub, c.origin⟩ body)
  modify fun b => { b with warnings := b.warnings ++ r.warnings }
  return r

def closeUnit (c : Context) (r : Resolution) (name : String) (params : List Name) (span : Span)
    (code : Instructions) : CodeUnit :=
  { name := name
    params := params.map (·.text)
    isSub := c.isSub
    code := (code ++ unitEnd c.isSub).toArray
    resolution := r
    span := span
    origin := c.origin }

def reserve (c : Context) (name : String) (span : Span) : Lower Unit := do
  let b ← get
  if b.names.contains name then throw ⟨.duplicateSub name, span, c.origin⟩
  set { b with names := name :: b.names }

def insertUnit (u : CodeUnit) : List CodeUnit → List CodeUnit
  | [] => [u]
  | v :: vs => if u.name < v.name then u :: v :: vs else v :: insertUnit u vs

/-! ## Nodes -/

mutual

/-- The code of an expression, which leaves its value on the stack. -/
def lowerExpr (c : Context) (p : Spot) : Expr → Lower Instructions
  | .missing | .undefined _ => return [bare (.const .undefined)]
  | .int value _ => return [bare (.const (.int value))]
  | .float value _ => return [bare (.const (.float value))]
  | .str value _ => return [bare (.const (.str value))]
  | .ident name span => return [placed (.load name) span]
  | .array elements _ => do
    let code ← lowerExprs c p elements
    return code ++ [bare (.makeArray elements.length)]
  | .index object index span => do
    let first ← lowerExpr c p object
    let second ← lowerExpr c (p.skip object.size) index
    return first ++ second ++ [placed .indexGet span]
  | .unary op operand span => do
    let code ← lowerExpr c p operand
    return code ++ [placed (.unary op) span]
  -- The left value is the result if it decides, and makes room for the right one if not.
  | .binary .and left right _ => do
    let first ← lowerExpr c p left
    let second ← lowerExpr c (p.skip (left.size + 3)) right
    let target := p.ip + left.size + 3 + right.size
    return first ++ [bare .dup, bare (.branchIfFalse target), bare .pop] ++ second
  | .binary .or left right _ => do
    let first ← lowerExpr c p left
    let second ← lowerExpr c (p.skip (left.size + 3)) right
    let target := p.ip + left.size + 3 + right.size
    return first ++ [bare .dup, bare (.branchIfTrue target), bare .pop] ++ second
  | .binary op left right span => do
    let first ← lowerExpr c p left
    let second ← lowerExpr c (p.skip left.size) right
    return first ++ second ++ [placed (.binary op) span]
  | .assign .declare left right span =>
    match left with
    | .ident name _ => do
      let code ← lowerExpr c p right
      return code ++ [placed (.declare name) span]
    | _ => unsupported .declaresNoName span
  | .assign op left right span =>
    match left with
    | .ident name place => do
      let compound := op.binary?
      -- The old value of a compound assignment is loaded ahead of the right side.
      let code ← lowerExpr c (p.skip (oneIf compound.isSome)) right
      return match compound with
        | some b =>
          [placed (.load name) place] ++ code ++ [placed (.binary b) span, placed (.store name) span]
        | none => code ++ [placed (.store name) span]
    | .index object index place => do
      let compound := op.binary?
      let first ← lowerExpr c p object
      let second ← lowerExpr c (p.skip object.size) index
      -- The old element is fetched by `dup2` and `indexGet` ahead of the right side.
      let shift := object.size + index.size + (if compound.isSome then 2 else 0)
      let third ← lowerExpr c (p.skip shift) right
      return match compound with
        | some b =>
          first ++ second ++ [bare .dup2, placed .indexGet place] ++ third
            ++ [placed (.binary b) span, placed .indexSet span]
        | none => first ++ second ++ third ++ [placed .indexSet span]
    | target => unsupported (.invalidTarget target) span
  | .call callee args span => do
    let first ← lowerExpr c p callee
    let second ← lowerExprs c (p.skip callee.size) args
    return first ++ second ++ [placed (.call (calleeName callee) args.length c.landing) span]
  | .closure params body span => do
    -- The body has no scope of the unit around it: a marker that it does not take goes to the callers.
    let unit ← lowerBody (.ofUnit true c.origin) "" params span body
    modify fun b => { b with closures := b.closures ++ [unit] }
    return [placed (.makeSub unit) span]

def lowerExprs (c : Context) (p : Spot) : List Expr → Lower Instructions
  | [] => return []
  | e :: es => do
    let first ← lowerExpr c p e
    let rest ← lowerExprs c (p.skip e.size) es
    return first ++ rest

/-- The code of a statement, which leaves the stack as it was. -/
def lowerStmt (c : Context) (p : Spot) : Stmt → Lower Instructions
  | .missing => return []
  | .expr e => do
    let code ← lowerExpr c p e
    return code ++ [bare (if c.isSub then .pop else .popResult)]
  | .block body => lowerBlock c p body
  | .bare label body span => do
    let targets := bareTargets p label body
    let point := dispatchPoint label targets c.landing span
    let code ← lowerScope (c.enter label false targets) (modeOf (labelText label) false) point
      (bareBody p) body
    return [bare .enterScope] ++ code ++ [bare .exitScope]
  | .whileLoop label test negate body span => do
    let targets := whileTargets p label test negate body
    let point := dispatchPoint label targets c.landing span
    let round := whileRound p test negate
    let headerEnd := whileHeaderEnd p label test negate body
    let hasPoint := headerDispatch label test.hasCall
    -- A call in the header lands behind the loop, at a dispatch point that is there for it.
    let header := if hasPoint then c.landingAt headerEnd.target else c
    let first ← lowerExpr header p test
    let code ← lowerScope (c.enter label true targets) (modeOf (labelText label) true) point
      (round.inner 1) body
    return first ++ negation negate ++ [bare (.branchIfFalse (headerEnd.ip + oneIf hasPoint))]
      ++ [bare .enterScope] ++ code ++ [bare .exitScope, bare (.branch p.ip)]
      ++ (if hasPoint then [point] else [])
  | .forLoop label init test step body span => do
    let targets := forTargets p label init test step body
    let point := dispatchPoint label targets c.landing span
    let close := forClose p label init test step body
    let hasPoint := headerDispatch label (forHasCall init test step)
    let header :=
      if hasPoint then c.landingAt (forHeaderEnd p label init test step body).target else c
    let first ← lowerInit header (p.inner 1) init
    let second ← if test.isMissing then pure [] else lowerExpr header (forTest p init) test
    let code ← lowerScope (c.enter label true targets) (modeOf (labelText label) true) point
      ((forRound p init test).inner 1) body
    -- The step is lowered after the body, as its code stands after it.
    let third ← if step.isMissing then pure []
      else lowerExpr header (forStep p label init test body) step
    return [bare .enterScope] ++ first ++ second ++ onlyIf (!test.isMissing) (.branchIfFalse close.ip)
      ++ [bare .enterScope] ++ code ++ [bare .exitScope] ++ third ++ onlyIf (!step.isMissing) .pop
      ++ [bare (.branch (forTest p init).ip)] ++ (if hasPoint then [point] else [])
      ++ [bare .exitScope]
  | .foreachLoop label item iterable body span => do
    let targets := foreachTargets p label iterable body
    let point := dispatchPoint label targets c.landing span
    let next := foreachNext p iterable
    let first ← lowerExpr c p iterable
    let code ← lowerScope (c.enter label true targets) (modeOf (labelText label) true) point
      (next.inner 3) body
    return first ++ [placed .iterInit span, bare (.iterNext (foreachEnd p label iterable body).ip)]
      ++ [bare .enterScope, bare (.iterBind item.text)] ++ code
      ++ [bare .exitScope, bare (.branch next.ip), bare .iterPop]
  | .ifChain test negate body clauses otherwise span => do
    -- The sizes are known ahead, so every arm can jump to the end before the later ones are lowered.
    let stop := p.ip + (Stmt.ifChain test negate body clauses otherwise span).size
    let inside := p.skip (test.size + oneIf negate + 1)
    let onward := inside.skip (body.size + 1)
    let first ← lowerExpr c p test
    let code ← lowerBlock c inside body
    let more ← lowerClauses c stop onward clauses
    let last ← lowerBlock c (onward.skip (clausesSize clauses)) otherwise
    return first ++ negation negate ++ [bare (.branchIfFalse onward.ip)] ++ code
      ++ [bare (.branch stop)] ++ more ++ last
  | .verb kind label span =>
    match MarkerKind.ofVerb? kind with
    | some marker => return [verbInstr c marker (labelText label) span]
    | none => unsupported (.unknownVerb kind.text) span
  | .tailCall callee args reuse span => do
    let first ← lowerExpr c p callee
    let second ← if reuse then pure [] else lowerExprs c (p.skip callee.size) args
    return first ++ second ++ [placed (.tailCall args.length reuse) span]
  | .ret argument span => do
    let code ← lowerExpr c p argument
    return code ++ [placed .ret span]
  | .sub name params body span => do
    -- A definition has no code of its own: the subs of a program are bound before its main chunk starts.
    reserve c name.text span
    let unit ← lowerBody (.ofUnit true c.origin) name.text params span body
    modify fun b => { b with subs := insertUnit unit b.subs }
    return []

def lowerBlock (c : Context) (p : Spot) : Block → Lower Instructions
  | .missing => return []
  | .mk body _ => do
    let code ← lowerStmts c (p.inner 1) body
    return [bare .enterScope] ++ code ++ [bare .exitScope]

/-- The code of the body of a loop or bare block with its dispatch points. Calls in it land on the
    next dispatch point of the body. -/
def lowerScope (c : Context) (mode : DispatchMode) (point : Instruction) (p : Spot) :
    Block → Lower Instructions
  | .missing => return if mode = .none then [] else [point]
  | .mk body _ =>
    match mode with
    | .none => lowerStmts c p body
    -- Calls anywhere in the body land on its one point.
    | .loopEnd => do
      let code ← lowerStmts (c.landingAt (p.skip (stmtsSize body)).target) p body
      return code ++ [point]
    | .perStatement => do
      if body.isEmpty then return [point]
      lowerEach c point p body

def lowerStmts (c : Context) (p : Spot) : List Stmt → Lower Instructions
  | [] => return []
  | s :: rest => do
    let first ← lowerStmt c p s
    let more ← lowerStmts c (p.skip s.size) rest
    return first ++ more

def lowerEach (c : Context) (point : Instruction) (p : Spot) : List Stmt → Lower Instructions
  | [] => return []
  | s :: rest => do
    let first ← lowerStmt (c.landingAt (p.skip s.size).target) p s
    let more ← lowerEach c point (p.skip (s.size + 1)) rest
    return first ++ [point] ++ more

def lowerClauses (c : Context) (stop : Nat) (p : Spot) : List Clause → Lower Instructions
  | [] => return []
  | .mk test body :: rest => do
    let inside := p.skip (test.size + 1)
    let onward := inside.skip (body.size + 1)
    let first ← lowerExpr c p test
    let code ← lowerBlock c inside body
    let more ← lowerClauses c stop onward rest
    return first ++ [bare (.branchIfFalse onward.ip)] ++ code ++ [bare (.branch stop)] ++ more

/-- The first part of a `for` header; its value is dropped. -/
def lowerInit (c : Context) (p : Spot) : Stmt → Lower Instructions
  | .missing => return []
  | .expr e => do
    let code ← lowerExpr c p e
    return code ++ [bare .pop]
  | s => unsupported (.expectedExpression s) s.span

def lowerBody (c : Context) (name : String) (params : List Name) (span : Span) :
    Block → Lower CodeUnit
  | .missing => do
    let r ← openUnit c []
    return closeUnit c r name params span []
  | .mk body _ => do
    let r ← openUnit c body
    let code ← lowerStmts c .start body
    return closeUnit c r name params span code

end

def lowerMain (origin : String) (m : Module) : Lower CodeUnit := do
  let c := Context.ofUnit false origin
  let r ← openUnit c m.body
  let code ← lowerStmts c .start m.body
  return closeUnit c r "main" [] m.span code

def compile (origin : String) (m : Module) : Except CompileError Program :=
  match lowerMain origin m ⟨[], [], [], []⟩ with
  | .error e => .error e
  | .ok (main, b) => .ok ⟨main, b.subs, b.closures, b.warnings, origin⟩

end KestrelLang.Code
