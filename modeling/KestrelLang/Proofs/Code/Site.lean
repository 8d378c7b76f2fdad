import KestrelLang.Proofs.Code.Inversion

/-! # Sites of instructions

What is known at compile time about the place of every instruction:

* `Shape` — how high the operand stack is and how many scopes and iterators of the frame are open.
* `Site` — a shape, the landing of a call made there, and the loops and blocks around it.
* `exprSites`, `stmtSites`, … — the sites of the instructions of a node, in the order of its code.
* `unitSites` — the sites of a whole unit.
* `length_exprSites`, `length_stmtSites`, … — a node has as many sites as instructions.

The header of a loop with a test or of a three-part loop counts as inside the loop; the value that a
loop over elements walks over counts as outside. -/

namespace KestrelLang.Code

open KestrelLang.Label

/-- How high the operand stack is, and how many scopes and iterators the frame has open. -/
structure Shape where
  height : Nat
  scopes : Nat
  iters : Nat
  deriving DecidableEq, Repr, Inhabited

/-- What is known about the place of an instruction: the shape of the frame before it, the landing of
    calls made there, and the scopes around it, the innermost first. -/
structure Site extends Shape where
  landing : JumpTarget
  around : List OpenScope
  deriving DecidableEq, Repr, Inhabited

def Site.up (s : Site) (n : Nat) : Site := { s with height := s.height + n }

@[simp] theorem Site.up_zero (s : Site) : s.up 0 = s := rfl

@[simp] theorem Site.up_up (s : Site) (m n : Nat) : (s.up m).up n = s.up (m + n) := by
  simp [Site.up, Nat.add_assoc]

/-- The shape of a statement boundary, where the operand stack is empty. -/
def Spot.shape (p : Spot) : Shape := ⟨0, p.scopes, p.iters⟩

def Context.site (c : Context) (p : Spot) : Site := ⟨p.shape, c.landing, c.enclosing⟩

def siteIf (q : Bool) (s : Site) : List Site := if q then [s] else []

/-! ## Expressions -/

mutual

def exprSites (s : Site) : Expr → List Site
  | .missing | .ident .. | .str .. | .int .. | .float .. | .undefined _ | .closure .. => [s]
  | .array elements _ => exprsSites s elements ++ [s.up elements.length]
  | .index object index _ => exprSites s object ++ exprSites (s.up 1) index ++ [s.up 2]
  | .unary _ operand _ => exprSites s operand ++ [s.up 1]
  | .binary op left right _ =>
    match op with
    | .and | .or => exprSites s left ++ [s.up 1, s.up 2, s.up 1] ++ exprSites s right
    | _ => exprSites s left ++ exprSites (s.up 1) right ++ [s.up 2]
  | .assign op left right _ =>
    let compound := op.binary?.isSome
    match left with
    | .index object index _ =>
      exprSites s object ++ exprSites (s.up 1) index
        ++ (if compound then [s.up 2, s.up 4] else [])
        ++ exprSites (s.up (2 + oneIf compound)) right ++ siteIf compound (s.up 4) ++ [s.up 3]
    | _ =>
      siteIf compound s ++ exprSites (s.up (oneIf compound)) right ++ siteIf compound (s.up 2)
        ++ [s.up 1]
  | .call callee args _ =>
    exprSites s callee ++ exprsSites (s.up 1) args ++ [s.up (1 + args.length)]

/-- The sites of the code of several expressions, each on top of the values before it. -/
def exprsSites (s : Site) : List Expr → List Site
  | [] => []
  | e :: es => exprSites s e ++ exprsSites (s.up 1) es

end

/-- The sites of an expression in a place that may be empty, with the instruction after it. -/
def optionalSites (s : Site) : Expr → List Site
  | .missing => []
  | e => exprSites s e ++ [s.up 1]

def initSites (s : Site) : Stmt → List Site
  | .expr e => exprSites s e ++ [s.up 1]
  | _ => []

/-! ## Statements -/

/-- The context of a `for` header, which counts as inside the loop. -/
def insideForHeader (c : Context) (p : Spot) (label : Option Name) (init : Stmt) (test step : Expr)
    (body : Block) : Context :=
  (forHeader c p label init test step body).enter label true (forTargets p label init test step body)

/-- The context of the test of a loop, which counts as inside the loop. -/
def insideWhileHeader (c : Context) (p : Spot) (label : Option Name) (test : Expr) (negate : Bool)
    (body : Block) : Context :=
  (headerContext c label test.hasCall (whileHeaderEnd p label test negate body).target).enter label true
    (whileTargets p label test negate body)

mutual

def stmtSites (c : Context) (p : Spot) : Stmt → List Site
  | .missing | .sub .. => []
  | .expr e => exprSites (c.site p) e ++ [(c.site p).up 1]
  | .block body => blockSites c p body
  | .bare label body _ =>
    [c.site p]
      ++ scopeSites (c.enter label false (bareTargets p label body)) (modeOf (labelText label) false)
        (c.site (bareBody p)) (bareBody p) body
      ++ [c.site (bareBody p)]
  | .whileLoop label test negate body _ =>
    let inner := (whileRound p test negate).inner 1
    exprSites ((insideWhileHeader c p label test negate body).site p) test
      ++ siteIf negate ((c.site p).up 1) ++ [(c.site p).up 1, c.site p]
      ++ scopeSites (c.enter label true (whileTargets p label test negate body))
        (modeOf (labelText label) true) (c.site inner) inner body
      ++ [c.site inner, c.site p] ++ siteIf (headerDispatch label test.hasCall) (c.site p)
  | .forLoop label init test step body _ =>
    let outer := forTest p init
    let inner := (forRound p init test).inner 1
    let header := (insideForHeader c p label init test step body).site outer
    [c.site p] ++ initSites header init ++ optionalSites header test ++ [c.site outer]
      ++ scopeSites (c.enter label true (forTargets p label init test step body))
        (modeOf (labelText label) true) (c.site inner) inner body
      ++ [c.site inner] ++ optionalSites header step ++ [c.site outer]
      ++ siteIf (headerDispatch label (forHasCall init test step)) (c.site outer) ++ [c.site outer]
  | .foreachLoop label _ iterable body _ =>
    let next := foreachNext p iterable
    let inner := next.inner 3
    exprSites (c.site p) iterable ++ [(c.site p).up 1, c.site next, c.site next, c.site inner]
      ++ scopeSites (c.enter label true (foreachTargets p label iterable body))
        (modeOf (labelText label) true) (c.site inner) inner body
      ++ [c.site inner, c.site next, c.site next]
  | .ifChain test negate body clauses otherwise _ =>
    let inside := p.skip (test.size + oneIf negate + 1)
    let onward := inside.skip (body.size + 1)
    exprSites (c.site p) test ++ siteIf negate ((c.site p).up 1) ++ [(c.site p).up 1]
      ++ blockSites c inside body ++ [c.site p] ++ clausesSites c onward clauses
      ++ blockSites c (onward.skip (clausesSize clauses)) otherwise
  | .verb .. => [c.site p]
  | .tailCall callee args reuse _ =>
    exprSites (c.site p) callee ++ (if reuse then [] else exprsSites ((c.site p).up 1) args)
      ++ [(c.site p).up (1 + if reuse then 0 else args.length)]
  | .ret argument _ => exprSites (c.site p) argument ++ [(c.site p).up 1]

def blockSites (c : Context) (p : Spot) : Block → List Site
  | .missing => []
  | .mk body _ => [c.site p] ++ stmtsSites c (p.inner 1) body ++ [c.site (p.inner 1)]

/-- The sites of the body of a loop or bare block; `point` is that of its dispatch points. -/
def scopeSites (c : Context) (mode : DispatchMode) (point : Site) (p : Spot) : Block → List Site
  | .missing => if mode = .none then [] else [point]
  | .mk body _ =>
    match mode with
    | .none => stmtsSites c p body
    | .loopEnd => stmtsSites (c.landingAt (p.skip (stmtsSize body)).target) p body ++ [point]
    | .perStatement => if body.isEmpty then [point] else eachSites c point p body

def stmtsSites (c : Context) (p : Spot) : List Stmt → List Site
  | [] => []
  | s :: rest => stmtSites c p s ++ stmtsSites c (p.skip s.size) rest

def eachSites (c : Context) (point : Site) (p : Spot) : List Stmt → List Site
  | [] => []
  | s :: rest =>
    stmtSites (c.landingAt (p.skip s.size).target) p s ++ [point]
      ++ eachSites c point (p.skip (s.size + 1)) rest

def clausesSites (c : Context) (p : Spot) : List Clause → List Site
  | [] => []
  | .mk test body :: rest =>
    let inside := p.skip (test.size + 1)
    let onward := inside.skip (body.size + 1)
    exprSites (c.site p) test ++ [(c.site p).up 1] ++ blockSites c inside body ++ [c.site p]
      ++ clausesSites c onward rest

end

def unitSites (isSub : Bool) (origin : String) (body : List Stmt) : List Site :=
  let c := Context.ofUnit isSub origin
  stmtsSites c .start body ++ [c.site .start, (c.site .start).up 1]

/-! ## As many sites as instructions -/

@[simp] theorem length_siteIf (q : Bool) (s : Site) : (siteIf q s).length = oneIf q := by
  cases q <;> rfl

theorem exprSites_binary {op : BinaryOp} {left right : Expr} {span : Span} (s : Site)
    (hand : op ≠ .and) (hor : op ≠ .or) :
    exprSites s (.binary op left right span) =
      exprSites s left ++ exprSites (s.up 1) right ++ [s.up 2] := by
  cases op <;> simp_all [exprSites]

mutual

@[simp] theorem length_exprSites (s : Site) (e : Expr) : (exprSites s e).length = e.size := by
  match e with
  | .missing | .undefined _ | .int .. | .float .. | .str .. | .ident .. | .closure .. =>
    simp [exprSites, Expr.size]
  | .array elements _ => simp [exprSites, Expr.size, length_exprsSites _ elements]
  | .index object index _ =>
    simp [exprSites, Expr.size, length_exprSites _ object, length_exprSites _ index]
    omega
  | .unary _ operand _ => simp [exprSites, Expr.size, length_exprSites _ operand]
  | .binary op left right _ =>
    have hl := length_exprSites s left
    have hr := fun s => length_exprSites s right
    by_cases hand : op = .and
    · subst hand
      simp [exprSites, Expr.size, hl, hr]
      omega
    by_cases hor : op = .or
    · subst hor
      simp [exprSites, Expr.size, hl, hr]
      omega
    · simp [exprSites_binary s hand hor, size_binary hand hor, hl, hr]
      omega
  | .assign op (.index object index _) right _ =>
    have hpair : (if op.binary?.isSome then [s.up 2, s.up 4] else []).length =
        if op.binary?.isSome then 2 else 0 := by split <;> rfl
    simp only [exprSites, Expr.size, List.length_append, length_siteIf, hpair,
      length_exprSites _ object, length_exprSites _ index, length_exprSites _ right,
      List.length_cons, List.length_nil]
  | .assign op .missing right _ | .assign op (.ident ..) right _ | .assign op (.str ..) right _
  | .assign op (.int ..) right _ | .assign op (.float ..) right _
  | .assign op (.undefined _) right _ | .assign op (.array ..) right _
  | .assign op (.unary ..) right _ | .assign op (.binary ..) right _
  | .assign op (.assign ..) right _ | .assign op (.call ..) right _
  | .assign op (.closure ..) right _ =>
    simp only [exprSites, Expr.size, List.length_append, length_siteIf, length_exprSites _ right,
      List.length_cons, List.length_nil]
  | .call callee args _ =>
    simp [exprSites, Expr.size, length_exprSites _ callee, length_exprsSites _ args]
    omega

@[simp] theorem length_exprsSites (s : Site) (es : List Expr) :
    (exprsSites s es).length = exprsSize es := by
  match es with
  | [] => simp [exprsSites, exprsSize]
  | e :: es => simp [exprsSites, exprsSize, length_exprSites _ e, length_exprsSites _ es]

end

@[simp] theorem length_optionalSites (s : Site) (e : Expr) :
    (optionalSites s e).length = optionalSize e := by
  cases e <;> simp [optionalSites, optionalSize]

@[simp] theorem length_initSites (s : Site) (init : Stmt) :
    (initSites s init).length = initSize init := by
  cases init <;> simp [initSites, initSize]

mutual

@[simp] theorem length_stmtSites (c : Context) (p : Spot) (s : Stmt) :
    (stmtSites c p s).length = s.size := by
  match s with
  | .missing | .sub .. => simp [stmtSites, Stmt.size]
  | .expr e => simp [stmtSites, Stmt.size]
  | .block body => simp [stmtSites, Stmt.size, length_blockSites c p body]
  | .bare label body _ =>
    simp only [stmtSites, Stmt.size, List.length_append, length_scopeSites _ _ _ _ body,
      List.length_cons, List.length_nil]
  | .whileLoop label test negate body _ =>
    simp only [stmtSites, Stmt.size, List.length_append, length_scopeSites _ _ _ _ body,
      length_exprSites, length_siteIf, List.length_cons, List.length_nil]
  | .forLoop label init test step body _ =>
    simp only [stmtSites, Stmt.size, List.length_append, length_scopeSites _ _ _ _ body,
      length_initSites, length_optionalSites, length_siteIf, List.length_cons, List.length_nil,
      forHasCall]
  | .foreachLoop label _ iterable body _ =>
    simp only [stmtSites, Stmt.size, List.length_append, length_scopeSites _ _ _ _ body,
      length_exprSites, List.length_cons, List.length_nil]
  | .ifChain test negate body clauses otherwise _ =>
    simp only [stmtSites, Stmt.size, List.length_append, length_blockSites _ _ body,
      length_clausesSites _ _ clauses, length_blockSites _ _ otherwise, length_exprSites,
      length_siteIf, List.length_cons, List.length_nil]
  | .verb .. => simp [stmtSites, Stmt.size]
  | .tailCall callee args reuse _ =>
    cases reuse <;> simp [stmtSites, Stmt.size]
    omega
  | .ret argument _ => simp [stmtSites, Stmt.size]

@[simp] theorem length_blockSites (c : Context) (p : Spot) (body : Block) :
    (blockSites c p body).length = body.size := by
  match body with
  | .missing => simp [blockSites, Block.size]
  | .mk stmts _ =>
    simp only [blockSites, Block.size, List.length_append, length_stmtsSites _ _ stmts,
      List.length_cons, List.length_nil]

@[simp] theorem length_scopeSites (c : Context) (mode : DispatchMode) (point : Site) (p : Spot)
    (body : Block) : (scopeSites c mode point p body).length = body.scopeSize mode := by
  match body with
  | .missing => cases mode <;> simp [scopeSites, Block.scopeSize, oneIf]
  | .mk stmts _ =>
    cases mode with
    | none => simp [scopeSites, Block.scopeSize, length_stmtsSites _ _ stmts]
    | loopEnd => simp [scopeSites, Block.scopeSize, length_stmtsSites _ _ stmts]
    | perStatement =>
      have h := length_eachSites c point p stmts
      cases hs : stmts.isEmpty <;> simp [scopeSites, Block.scopeSize, hs, h]

@[simp] theorem length_stmtsSites (c : Context) (p : Spot) (stmts : List Stmt) :
    (stmtsSites c p stmts).length = stmtsSize stmts := by
  match stmts with
  | [] => simp [stmtsSites, stmtsSize]
  | s :: rest =>
    simp [stmtsSites, stmtsSize, length_stmtSites _ _ s, length_stmtsSites _ _ rest]

@[simp] theorem length_eachSites (c : Context) (point : Site) (p : Spot) (stmts : List Stmt) :
    (eachSites c point p stmts).length = stmtsSize stmts + stmts.length := by
  match stmts with
  | [] => simp [eachSites, stmtsSize]
  | s :: rest =>
    simp [eachSites, stmtsSize, length_stmtSites _ _ s, length_eachSites _ _ _ rest]
    omega

@[simp] theorem length_clausesSites (c : Context) (p : Spot) (clauses : List Clause) :
    (clausesSites c p clauses).length = clausesSize clauses := by
  match clauses with
  | [] => simp [clausesSites, clausesSize]
  | .mk test body :: rest =>
    simp only [clausesSites, clausesSize, List.length_append, length_blockSites _ _ body,
      length_clausesSites _ _ rest, length_exprSites, List.length_cons, List.length_nil]

end

/-! ## Addresses of the layout, counted from the start of the loop -/

section Addresses

variable (p : Spot) (label : Option Name) (init : Stmt) (test step iterable : Expr) (negate : Bool)
  (body : Block)

theorem ip_whileRound : (whileRound p test negate).ip = p.ip + test.size + oneIf negate + 1 := by
  simp only [whileRound, Spot.skip, ← Nat.add_assoc]

theorem ip_whileRound_inner :
    ((whileRound p test negate).inner 1).ip = p.ip + test.size + oneIf negate + 2 := by
  simp only [Spot.inner, ip_whileRound]

theorem ip_whileHeaderEnd :
    (whileHeaderEnd p label test negate body).ip =
      p.ip + test.size + oneIf negate + 2 + body.scopeSize (modeOf (labelText label) true) + 2 := by
  simp only [whileHeaderEnd, Spot.skip, ip_whileRound, ← Nat.add_assoc]

theorem ip_forTest : (forTest p init).ip = p.ip + 1 + initSize init := by
  simp only [forTest, Spot.inner, ← Nat.add_assoc]

theorem ip_forRound : (forRound p init test).ip = p.ip + 1 + initSize init + optionalSize test := by
  simp only [forRound, Spot.skip, ip_forTest]

theorem ip_forRound_inner :
    ((forRound p init test).inner 1).ip = p.ip + 1 + initSize init + optionalSize test + 1 := by
  simp only [Spot.inner, ip_forRound]

theorem ip_forStep :
    (forStep p label init test body).ip =
      p.ip + 1 + initSize init + optionalSize test + 1
        + body.scopeSize (modeOf (labelText label) true) + 1 := by
  simp only [forStep, Spot.skip, ip_forRound, ← Nat.add_assoc]

theorem ip_forHeaderEnd :
    (forHeaderEnd p label init test step body).ip =
      p.ip + 1 + initSize init + optionalSize test + 1
        + body.scopeSize (modeOf (labelText label) true) + 1 + optionalSize step + 1 := by
  simp only [forHeaderEnd, Spot.skip, ip_forStep, ← Nat.add_assoc]

theorem ip_forClose :
    (forClose p label init test step body).ip =
      p.ip + 1 + initSize init + optionalSize test + 1
        + body.scopeSize (modeOf (labelText label) true) + 1 + optionalSize step + 1
        + oneIf (headerDispatch label (forHasCall init test step)) := by
  simp only [forClose, Spot.skip, ip_forHeaderEnd]

theorem ip_foreachNext : (foreachNext p iterable).ip = p.ip + iterable.size + 1 := rfl

theorem ip_foreachEnd :
    (foreachEnd p label iterable body).ip =
      p.ip + iterable.size + 4 + body.scopeSize (modeOf (labelText label) true) + 2 := by
  simp only [foreachEnd, Spot.skip, ip_foreachNext, ← Nat.add_assoc]

end Addresses

end KestrelLang.Code
