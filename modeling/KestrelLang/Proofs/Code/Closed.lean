import KestrelLang.Proofs.Code.Inversion

/-! # Properties of all lowerings

* `Module.bodies` — the text of the main chunk and of all subs and closures.
* `Closed` — a property that the steps of a lowering have, and that is kept when they are put together.
* `Closed.lowerExpr`, `Closed.lowerStmt`, … — all lowerings have such a property. -/

namespace KestrelLang

/-! ## Bodies -/

mutual

/-- The bodies of the closures in an expression, and of the subs and closures inside them. -/
def Expr.bodies : Expr → List (List Stmt)
  | .missing | .undefined _ | .int .. | .float .. | .str .. | .ident .. => []
  | .array elements _ => exprsBodies elements
  | .index object index _ => object.bodies ++ index.bodies
  | .unary _ operand _ => operand.bodies
  | .binary _ left right _ | .assign _ left right _ => left.bodies ++ right.bodies
  | .call callee args _ => callee.bodies ++ exprsBodies args
  | .closure _ body _ => body.stmts :: body.bodies

def exprsBodies : List Expr → List (List Stmt)
  | [] => []
  | e :: es => e.bodies ++ exprsBodies es

def Stmt.bodies : Stmt → List (List Stmt)
  | .missing | .verb .. => []
  | .expr e | .ret e _ => e.bodies
  | .block body | .bare _ body _ => body.bodies
  | .whileLoop _ e _ body _ | .foreachLoop _ _ e body _ => e.bodies ++ body.bodies
  | .forLoop _ init test step body _ => init.bodies ++ (test.bodies ++ (step.bodies ++ body.bodies))
  | .ifChain test _ body clauses otherwise _ =>
    test.bodies ++ (body.bodies ++ (clausesBodies clauses ++ otherwise.bodies))
  | .tailCall callee args _ _ => callee.bodies ++ exprsBodies args
  | .sub _ _ body _ => body.stmts :: body.bodies

def Block.bodies : Block → List (List Stmt)
  | .missing => []
  | .mk body _ => stmtsBodies body

def stmtsBodies : List Stmt → List (List Stmt)
  | [] => []
  | s :: rest => s.bodies ++ stmtsBodies rest

def clausesBodies : List Clause → List (List Stmt)
  | [] => []
  | .mk test body :: rest => test.bodies ++ (body.bodies ++ clausesBodies rest)

end

/-- The bodies of all units of a module: the main chunk, the subs and the closures. -/
def Module.bodies (m : Module) : List (List Stmt) := m.body :: stmtsBodies m.body

namespace Code

open KestrelLang.Label

/-! ## Closed properties -/

/-- A property of lowerings that the single steps have, and that is kept when they are put together. The two
    places where a unit is added, for one of the given bodies, have cases of their own. -/
structure Closed (bodies : List (List Stmt)) (P : {α : Type} → Lower α → Prop) : Prop where
  pure : ∀ {α : Type} (a : α), P (Pure.pure a : Lower α)
  bind : ∀ {α β : Type} {x : Lower α} {f : α → Lower β}, P x → (∀ a, P (f a)) → P (x >>= f)
  unsupported : ∀ {α : Type} (cause : CompileCause) (span : Span), P (Code.unsupported cause span : Lower α)
  openUnit : ∀ (c : Context) (body : List Stmt), P (Code.openUnit c body)
  closure : ∀ {c : Context} {p : Spot} {params : List Name} {body : Block} {span : Span},
    body.stmts ∈ bodies → P (Code.lowerBody (.ofUnit true c.origin) "" params span body) →
      P (Code.lowerExpr c p (.closure params body span))
  sub : ∀ {c : Context} {p : Spot} {name : Name} {params : List Name} {body : Block} {span : Span},
    body.stmts ∈ bodies → P (Code.lowerBody (.ofUnit true c.origin) name.text params span body) →
      P (Code.lowerStmt c p (.sub name params body span))

namespace Closed

variable {bodies : List (List Stmt)} {P : {α : Type} → Lower α → Prop}

theorem ite {α : Type} {q : Prop} [Decidable q] {x y : Lower α} (hx : P x) (hy : P y) :
    P (if q then x else y) := by
  split <;> assumption

theorem lowerOptional (h : Closed bodies P) {c : Context} {p : Spot} {e : Expr} {last : Operation CodeUnit}
    (he : P (Code.lowerExpr c p e)) : P (Code.lowerOptional c p e last) :=
  ite (h.pure _) (h.bind he fun _ => h.pure _)

mutual

theorem lowerExpr (h : Closed bodies P) {c : Context} {p : Spot} (e : Expr) (hin : e.bodies ⊆ bodies) :
    P (Code.lowerExpr c p e) := by
  match e with
  | .missing | .undefined _ | .int .. | .float .. | .str .. | .ident .. =>
    rw [Code.lowerExpr]
    exact h.pure _
  | .array elements _ =>
    rw [Expr.bodies] at hin
    rw [Code.lowerExpr]
    exact h.bind (h.lowerExprs elements hin) fun _ => h.pure _
  | .index object index _ =>
    rw [Expr.bodies, List.append_subset] at hin
    rw [Code.lowerExpr]
    exact h.bind (h.lowerExpr object hin.1) fun _ => h.bind (h.lowerExpr index hin.2) fun _ => h.pure _
  | .unary _ operand _ =>
    rw [Expr.bodies] at hin
    rw [Code.lowerExpr]
    exact h.bind (h.lowerExpr operand hin) fun _ => h.pure _
  | .binary op left right _ =>
    rw [Expr.bodies, List.append_subset] at hin
    -- The operators have three equations between them, all with both sides in this order.
    cases op <;> simp only [Code.lowerExpr]
    all_goals exact h.bind (h.lowerExpr left hin.1) fun _ => h.bind (h.lowerExpr right hin.2) fun _ => h.pure _
  | .assign op (.ident name place) right _ =>
    rw [Expr.bodies, List.append_subset] at hin
    cases op <;> simp only [Code.lowerExpr]
    all_goals exact h.bind (h.lowerExpr right hin.2) fun _ => h.pure _
  | .assign op (.index object index place) right _ =>
    rw [Expr.bodies, Expr.bodies, List.append_subset, List.append_subset] at hin
    cases op <;> simp only [Code.lowerExpr]
    case declare => exact h.unsupported _ _
    all_goals
      exact h.bind (h.lowerExpr object hin.1.1) fun _ => h.bind (h.lowerExpr index hin.1.2) fun _ =>
        h.bind (h.lowerExpr right hin.2) fun _ => h.pure _
  | .assign op .missing right _ | .assign op (.str ..) right _ | .assign op (.int ..) right _
  | .assign op (.float ..) right _ | .assign op (.undefined _) right _ | .assign op (.array ..) right _
  | .assign op (.unary ..) right _ | .assign op (.binary ..) right _ | .assign op (.assign ..) right _
  | .assign op (.call ..) right _ | .assign op (.closure ..) right _ =>
    cases op <;> simp only [Code.lowerExpr]
    all_goals exact h.unsupported _ _
  | .call callee args _ =>
    rw [Expr.bodies, List.append_subset] at hin
    rw [Code.lowerExpr]
    exact h.bind (h.lowerExpr callee hin.1) fun _ => h.bind (h.lowerExprs args hin.2) fun _ => h.pure _
  | .closure params body _ =>
    rw [Expr.bodies, List.cons_subset] at hin
    exact h.closure hin.1 (h.lowerBody body hin.2)

theorem lowerExprs (h : Closed bodies P) {c : Context} {p : Spot} (es : List Expr) (hin : exprsBodies es ⊆ bodies) :
    P (Code.lowerExprs c p es) := by
  match es with
  | [] =>
    rw [Code.lowerExprs]
    exact h.pure _
  | e :: es =>
    rw [exprsBodies, List.append_subset] at hin
    rw [Code.lowerExprs]
    exact h.bind (h.lowerExpr e hin.1) fun _ => h.bind (h.lowerExprs es hin.2) fun _ => h.pure _

theorem lowerInit (h : Closed bodies P) {c : Context} {p : Spot} (init : Stmt) (hin : init.bodies ⊆ bodies) :
    P (Code.lowerInit c p init) := by
  match init with
  | .missing =>
    rw [Code.lowerInit]
    exact h.pure _
  | .expr e =>
    rw [Stmt.bodies] at hin
    rw [Code.lowerInit]
    exact h.bind (h.lowerExpr e hin) fun _ => h.pure _
  | .block _ | .bare .. | .whileLoop .. | .forLoop .. | .foreachLoop .. | .ifChain .. | .verb ..
  | .tailCall .. | .ret .. | .sub .. =>
    simp only [Code.lowerInit]
    exact h.unsupported _ _

theorem lowerStmt (h : Closed bodies P) {c : Context} {p : Spot} (s : Stmt) (hin : s.bodies ⊆ bodies) :
    P (Code.lowerStmt c p s) := by
  match s with
  | .missing =>
    rw [Code.lowerStmt]
    exact h.pure _
  | .expr e =>
    rw [Stmt.bodies] at hin
    rw [Code.lowerStmt]
    exact h.bind (h.lowerExpr e hin) fun _ => h.pure _
  | .block body =>
    rw [Stmt.bodies] at hin
    rw [Code.lowerStmt]
    exact h.lowerBlock body hin
  | .bare label body _ =>
    rw [Stmt.bodies] at hin
    rw [Code.lowerStmt]
    exact h.bind (h.lowerScope body hin) fun _ => h.pure _
  | .whileLoop label test negate body _ =>
    rw [Stmt.bodies, List.append_subset] at hin
    rw [Code.lowerStmt]
    exact h.bind (h.lowerExpr test hin.1) fun _ => h.bind (h.lowerScope body hin.2) fun _ => h.pure _
  | .forLoop label init test step body _ =>
    simp only [Stmt.bodies, List.append_subset] at hin
    obtain ⟨hinit, htest, hstep, hbody⟩ := hin
    rw [lowerStmt_forLoop]
    exact h.bind (h.lowerInit init hinit) fun _ => h.bind (h.lowerOptional (h.lowerExpr test htest)) fun _ =>
      h.bind (h.lowerScope body hbody) fun _ => h.bind (h.lowerOptional (h.lowerExpr step hstep)) fun _ => h.pure _
  | .foreachLoop label item iterable body _ =>
    rw [Stmt.bodies, List.append_subset] at hin
    rw [Code.lowerStmt]
    exact h.bind (h.lowerExpr iterable hin.1) fun _ => h.bind (h.lowerScope body hin.2) fun _ => h.pure _
  | .ifChain test negate body clauses otherwise _ =>
    simp only [Stmt.bodies, List.append_subset] at hin
    obtain ⟨htest, hbody, hclauses, hotherwise⟩ := hin
    rw [Code.lowerStmt]
    exact h.bind (h.lowerExpr test htest) fun _ => h.bind (h.lowerBlock body hbody) fun _ =>
      h.bind (h.lowerClauses clauses hclauses) fun _ => h.bind (h.lowerBlock otherwise hotherwise) fun _ => h.pure _
  | .verb kind label span =>
    rw [Code.lowerStmt]
    split
    · exact h.pure _
    · exact h.unsupported _ _
  | .tailCall callee args reuse _ =>
    rw [Stmt.bodies, List.append_subset] at hin
    rw [Code.lowerStmt]
    refine h.bind (h.lowerExpr callee hin.1) fun _ => ite ?_ ?_
    · exact h.bind (h.pure _) fun _ => h.pure _
    · exact h.bind (h.lowerExprs args hin.2) fun _ => h.pure _
  | .ret argument _ =>
    rw [Stmt.bodies] at hin
    rw [Code.lowerStmt]
    exact h.bind (h.lowerExpr argument hin) fun _ => h.pure _
  | .sub name params body _ =>
    rw [Stmt.bodies, List.cons_subset] at hin
    exact h.sub hin.1 (h.lowerBody body hin.2)

theorem lowerBlock (h : Closed bodies P) {c : Context} {p : Spot} (body : Block) (hin : body.bodies ⊆ bodies) :
    P (Code.lowerBlock c p body) := by
  match body with
  | .missing =>
    rw [Code.lowerBlock]
    exact h.pure _
  | .mk stmts _ =>
    rw [Block.bodies] at hin
    rw [Code.lowerBlock]
    exact h.bind (h.lowerStmts stmts hin) fun _ => h.pure _

theorem lowerScope (h : Closed bodies P) {c : Context} {mode : DispatchMode} {point : Instruction} {p : Spot}
    (body : Block) (hin : body.bodies ⊆ bodies) : P (Code.lowerScope c mode point p body) := by
  match body with
  | .missing =>
    rw [Code.lowerScope]
    exact h.pure _
  | .mk stmts _ =>
    rw [Block.bodies] at hin
    cases mode with
    | none => simpa only [Code.lowerScope] using h.lowerStmts stmts hin
    | loopEnd =>
      simp only [Code.lowerScope]
      exact h.bind (h.lowerStmts stmts hin) fun _ => h.pure _
    | perStatement =>
      simp only [Code.lowerScope]
      exact ite (h.pure _) (h.lowerEach stmts hin)

theorem lowerStmts (h : Closed bodies P) {c : Context} {p : Spot} (stmts : List Stmt)
    (hin : stmtsBodies stmts ⊆ bodies) : P (Code.lowerStmts c p stmts) := by
  match stmts with
  | [] =>
    rw [Code.lowerStmts]
    exact h.pure _
  | s :: rest =>
    rw [stmtsBodies, List.append_subset] at hin
    rw [Code.lowerStmts]
    exact h.bind (h.lowerStmt s hin.1) fun _ => h.bind (h.lowerStmts rest hin.2) fun _ => h.pure _

theorem lowerEach (h : Closed bodies P) {c : Context} {point : Instruction} {p : Spot} (stmts : List Stmt)
    (hin : stmtsBodies stmts ⊆ bodies) : P (Code.lowerEach c point p stmts) := by
  match stmts with
  | [] =>
    rw [Code.lowerEach]
    exact h.pure _
  | s :: rest =>
    rw [stmtsBodies, List.append_subset] at hin
    rw [Code.lowerEach]
    exact h.bind (h.lowerStmt s hin.1) fun _ => h.bind (h.lowerEach rest hin.2) fun _ => h.pure _

theorem lowerClauses (h : Closed bodies P) {c : Context} {stop : Nat} {p : Spot} (clauses : List Clause)
    (hin : clausesBodies clauses ⊆ bodies) : P (Code.lowerClauses c stop p clauses) := by
  match clauses with
  | [] =>
    rw [Code.lowerClauses]
    exact h.pure _
  | .mk test body :: rest =>
    simp only [clausesBodies, List.append_subset] at hin
    obtain ⟨htest, hbody, hrest⟩ := hin
    rw [Code.lowerClauses]
    exact h.bind (h.lowerExpr test htest) fun _ => h.bind (h.lowerBlock body hbody) fun _ =>
      h.bind (h.lowerClauses rest hrest) fun _ => h.pure _

theorem lowerBody (h : Closed bodies P) {c : Context} {name : String} {params : List Name} {span : Span}
    (body : Block) (hin : body.bodies ⊆ bodies) : P (Code.lowerBody c name params span body) := by
  match body with
  | .missing =>
    rw [Code.lowerBody]
    exact h.bind (h.openUnit _ _) fun _ => h.pure _
  | .mk stmts _ =>
    rw [Block.bodies] at hin
    rw [Code.lowerBody]
    exact h.bind (h.openUnit _ _) fun _ => h.bind (h.lowerStmts stmts hin) fun _ => h.pure _

end

end Closed

end Code

end KestrelLang
