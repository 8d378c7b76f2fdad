import KestrelLang.Code.Lowering

/-! # Inversion of lowering

What a successful lowering was made of:

* `Lower.pure_eq_ok`, `Lower.bind_eq_ok`, … — one lemma for each step of a lowering.
* `lowerExpr_binary`, `lowerExpr_assignName`, `lowerStmt_forLoop`, … — the cases whose equations branch.
* `length_lowerExpr`, `length_lowerStmt`, … — lowered code has the size that addresses were computed
  from. -/

namespace KestrelLang.Code

open KestrelLang.Label

variable {c : Context} {p : Spot} {code : Instructions} {b b' : Build}

/-! ## Steps of a lowering -/

@[simp] theorem Lower.pure_eq_ok {α : Type} {a a' : α} :
    (pure a : Lower α) b = .ok (a', b') ↔ a' = a ∧ b' = b := by
  constructor
  · intro h
    cases h
    exact ⟨rfl, rfl⟩
  · rintro ⟨rfl, rfl⟩
    rfl

@[simp] theorem Lower.bind_eq_ok {α β : Type} {x : Lower α} {f : α → Lower β} {a : β} :
    (x >>= f) b = .ok (a, b') ↔ ∃ y b₁, x b = .ok (y, b₁) ∧ f y b₁ = .ok (a, b') := by
  simp only [bind, StateT.bind, Except.bind]
  constructor
  · intro h
    split at h
    · cases h
    · rename_i r hr
      exact ⟨r.1, r.2, hr, h⟩
  · rintro ⟨y, b₁, hx, hf⟩
    simp only [hx, hf]

@[simp] theorem Lower.unsupported_eq_ok {α : Type} {cause : CompileCause} {span : Span} {a : α} :
    (unsupported cause span : Lower α) b = .ok (a, b') ↔ False := by
  simp [unsupported, throw, throwThe, MonadExceptOf.throw, StateT.lift, bind, Except.bind]

@[simp] theorem Lower.modify_eq_ok {f : Build → Build} {u : Unit} :
    (modify f : Lower Unit) b = .ok (u, b') ↔ b' = f b := by
  constructor
  · intro h
    cases h
    rfl
  · rintro rfl
    rfl

theorem openUnit_eq_ok {body : List Stmt} {r : Resolution} :
    openUnit c body b = .ok (r, b') ↔
      resolve ⟨c.isSub, c.origin⟩ body = .ok r ∧ b' = { b with warnings := b.warnings ++ r.warnings } := by
  simp only [openUnit, Lower.bind_eq_ok, Lower.modify_eq_ok, Lower.pure_eq_ok]
  constructor
  · rintro ⟨r', b₁, hlift, _, _, rfl, rfl, rfl⟩
    simp only [StateT.lift, bind, Except.bind] at hlift
    split at hlift
    · cases hlift
    · cases hlift
      exact ⟨by assumption, rfl⟩
  · rintro ⟨hr, rfl⟩
    exact ⟨r, b, by simp [StateT.lift, hr, bind, Except.bind, pure, Except.pure], (), _, rfl, rfl, rfl⟩

theorem reserve_eq_ok {name : String} {span : Span} {u : Unit}
    (h : reserve c name span b = .ok (u, b')) :
    name ∉ b.names ∧ b' = { b with names := name :: b.names } := by
  simp only [reserve, Lower.bind_eq_ok] at h
  obtain ⟨b₁, b₂, hget, h⟩ := h
  cases hget
  by_cases hmem : name ∈ b.names
  · simp [hmem, throw, throwThe, MonadExceptOf.throw, StateT.lift, bind, StateT.bind, Except.bind] at h
  · simp only [List.contains_eq_mem, hmem, decide_false, Bool.false_eq_true, if_false] at h
    cases h
    exact ⟨hmem, rfl⟩

/-! ## Cases that branch -/

/-- A short-circuit operator tests its left side; any other operator follows both sides. -/
theorem lowerExpr_binary {op : BinaryOp} {left right : Expr} {span : Span}
    (h : lowerExpr c p (.binary op left right span) b = .ok (code, b')) :
    (∃ first b₁ second test, lowerExpr c p left b = .ok (first, b₁) ∧
      lowerExpr c (p.skip (left.size + 3)) right b₁ = .ok (second, b') ∧
      (op = .and ∧ test = Operation.branchIfFalse ∨ op = .or ∧ test = Operation.branchIfTrue) ∧
      code = first ++ [bare .dup, bare (test (p.ip + left.size + 3 + right.size)), bare .pop]
        ++ second) ∨
    (op ≠ .and ∧ op ≠ .or ∧ ∃ first b₁ second, lowerExpr c p left b = .ok (first, b₁) ∧
      lowerExpr c (p.skip left.size) right b₁ = .ok (second, b') ∧
      code = first ++ second ++ [placed (.binary op) span]) := by
  -- The equation of all other operators applies only once both short-circuit ones are excluded.
  by_cases hand : op = .and
  · subst hand
    simp only [lowerExpr, Lower.bind_eq_ok, Lower.pure_eq_ok] at h
    obtain ⟨first, b₁, h₁, second, b₂, h₂, rfl, rfl⟩ := h
    exact .inl ⟨first, b₁, second, _, h₁, h₂, .inl ⟨rfl, rfl⟩, rfl⟩
  by_cases hor : op = .or
  · subst hor
    simp only [lowerExpr, Lower.bind_eq_ok, Lower.pure_eq_ok] at h
    obtain ⟨first, b₁, h₁, second, b₂, h₂, rfl, rfl⟩ := h
    exact .inl ⟨first, b₁, second, _, h₁, h₂, .inr ⟨rfl, rfl⟩, rfl⟩
  · rw [lowerExpr] at h
    · simp only [Lower.bind_eq_ok, Lower.pure_eq_ok] at h
      obtain ⟨first, b₁, h₁, second, b₂, h₂, rfl, rfl⟩ := h
      exact .inr ⟨hand, hor, first, b₁, second, h₁, h₂, rfl⟩
    · exact hand
    · exact hor

def nameAssignment (op : AssignOp) (name : String) (place span : Span) (value : Instructions) :
    Instructions :=
  (match op.binary? with
    | some f => [placed (.load name) place] ++ value ++ [placed (.binary f) span]
    | none => value) ++ [placed (if op = .declare then .declare name else .store name) span]

/-- The code of an assignment to an element, after the code of the object and of the index. -/
def elementAssignment (op : AssignOp) (place span : Span) (value : Instructions) : Instructions :=
  (match op.binary? with
    | some f => [bare .dup2, placed .indexGet place] ++ value ++ [placed (.binary f) span]
    | none => value) ++ [placed .indexSet span]

theorem lowerExpr_assignName {op : AssignOp} {name : String} {place span : Span} {right : Expr}
    (h : lowerExpr c p (.assign op (.ident name place) right span) b = .ok (code, b')) :
    ∃ value, lowerExpr c (p.skip (oneIf op.binary?.isSome)) right b = .ok (value, b') ∧
      code = nameAssignment op name place span value := by
  -- A declaration has an equation of its own; all other operators share one.
  by_cases hop : op = .declare
  · subst hop
    simp only [lowerExpr, Lower.bind_eq_ok, Lower.pure_eq_ok] at h
    obtain ⟨value, b₁, h₁, rfl, rfl⟩ := h
    exact ⟨value, h₁, rfl⟩
  · rw [lowerExpr] at h
    · simp only [Lower.bind_eq_ok, Lower.pure_eq_ok] at h
      obtain ⟨value, b₁, h₁, rfl, rfl⟩ := h
      refine ⟨value, h₁, ?_⟩
      cases hb : op.binary? <;> simp [nameAssignment, hb, hop]
    · exact hop

theorem lowerExpr_assignElement {op : AssignOp} {object index : Expr} {place span : Span} {right : Expr}
    (h : lowerExpr c p (.assign op (.index object index place) right span) b = .ok (code, b')) :
    ∃ first b₁ second b₂ value, lowerExpr c p object b = .ok (first, b₁) ∧
      lowerExpr c (p.skip object.size) index b₁ = .ok (second, b₂) ∧
      lowerExpr c (p.skip (object.size + index.size + if op.binary?.isSome then 2 else 0)) right b₂
        = .ok (value, b') ∧
      code = first ++ second ++ elementAssignment op place span value := by
  by_cases hop : op = .declare
  · subst hop
    simp [lowerExpr] at h
  · rw [lowerExpr] at h
    · simp only [Lower.bind_eq_ok, Lower.pure_eq_ok] at h
      obtain ⟨first, b₁, h₁, second, b₂, h₂, value, b₃, h₃, rfl, rfl⟩ := h
      refine ⟨first, b₁, second, b₂, value, h₁, h₂, h₃, ?_⟩
      cases hb : op.binary? <;> simp [elementAssignment, hb]
    · exact hop

theorem lowerExpr_assignOther {op : AssignOp} {left right : Expr} {span : Span}
    (hname : ∀ name place, left ≠ .ident name place)
    (helement : ∀ object index place, left ≠ .index object index place) :
    lowerExpr c p (.assign op left right span) b ≠ .ok (code, b') := by
  intro h
  by_cases hop : op = .declare
  · subst hop
    cases left <;> simp [lowerExpr] at h hname
  · cases left <;> simp [lowerExpr] at h hname helement

/-- The code of an expression in a place that may be empty, with one instruction after it. -/
def lowerOptional (c : Context) (p : Spot) (e : Expr) (last : Operation CodeUnit) :
    Lower Instructions :=
  if e.isMissing then pure [] else do
    let code ← lowerExpr c p e
    return code ++ [bare last]

/-- The context of the header of a loop: with a dispatch point for the header, calls land there. -/
def headerContext (c : Context) (label : Option Name) (hasCall : Bool) (point : JumpTarget) : Context :=
  if headerDispatch label hasCall then c.landingAt point else c

def forHeader (c : Context) (p : Spot) (label : Option Name) (init : Stmt) (test step : Expr)
    (body : Block) : Context :=
  headerContext c label (forHasCall init test step) (forHeaderEnd p label init test step body).target

theorem lowerStmt_forLoop {label : Option Name} {init : Stmt} {test step : Expr} {body : Block}
    {span : Span} :
    lowerStmt c p (.forLoop label init test step body span) = (do
      let header := forHeader c p label init test step body
      let point := dispatchPoint label (forTargets p label init test step body) c.landing span
      let first ← lowerInit header (p.inner 1) init
      let second ← lowerOptional header (forTest p init) test
        (.branchIfFalse (forClose p label init test step body).ip)
      let inside ← lowerScope (c.enter label true (forTargets p label init test step body))
        (modeOf (labelText label) true) point ((forRound p init test).inner 1) body
      let third ← lowerOptional header (forStep p label init test body) step .pop
      return [bare .enterScope] ++ first ++ second ++ [bare .enterScope] ++ inside ++ [bare .exitScope]
        ++ third ++ [bare (.branch (forTest p init).ip)]
        ++ (if headerDispatch label (forHasCall init test step) then [point] else [])
        ++ [bare .exitScope]) := by
  rw [lowerStmt]
  -- The test and the step may each be missing; in all four cases both sides are the same code.
  by_cases ht : test.isMissing = true <;> by_cases hs : step.isMissing = true <;>
    simp only [lowerOptional, forHeader, headerContext, onlyIf, ht, hs, Bool.not_true, Bool.not_false,
      if_true, if_false, Bool.false_eq_true, pure_bind, bind_assoc, List.append_assoc,
      List.append_nil, List.nil_append, List.cons_append]

theorem isMissing_eq_false {e : Expr} (h : e ≠ .missing) : e.isMissing = false := by
  cases e <;> simp_all [Expr.isMissing]

theorem lowerOptional_eq_ok {e : Expr} {last : Operation CodeUnit}
    (h : lowerOptional c p e last b = .ok (code, b')) :
    (e = .missing ∧ code = [] ∧ b' = b) ∨
    (e ≠ .missing ∧ ∃ value, lowerExpr c p e b = .ok (value, b') ∧ code = value ++ [bare last]) := by
  by_cases hm : e = .missing
  · subst hm
    obtain ⟨rfl, rfl⟩ := Lower.pure_eq_ok.mp h
    exact .inl ⟨rfl, rfl, rfl⟩
  · simp only [lowerOptional, isMissing_eq_false hm, Bool.false_eq_true, if_false, Lower.bind_eq_ok,
      Lower.pure_eq_ok] at h
    obtain ⟨value, b₁, h₁, rfl, rfl⟩ := h
    exact .inr ⟨hm, value, h₁, rfl⟩

theorem lowerInit_eq_ok {init : Stmt} (h : lowerInit c p init b = .ok (code, b')) :
    (init = .missing ∧ code = [] ∧ b' = b) ∨
    ∃ e value, init = .expr e ∧ lowerExpr c p e b = .ok (value, b') ∧ code = value ++ [bare .pop] := by
  cases init <;> simp only [lowerInit, Lower.pure_eq_ok, Lower.bind_eq_ok, Lower.unsupported_eq_ok] at h
  case missing => exact .inl ⟨rfl, h⟩
  case expr e =>
    obtain ⟨value, b₁, h₁, rfl, rfl⟩ := h
    exact .inr ⟨e, value, rfl, h₁, rfl⟩

/-! ## Sizes -/

theorem size_binary {op : BinaryOp} {left right : Expr} {span : Span} (hand : op ≠ .and)
    (hor : op ≠ .or) : (Expr.binary op left right span).size = left.size + right.size + 1 := by
  cases op <;> simp_all [Expr.size]

theorem length_nameAssignment (op : AssignOp) (name : String) (place span : Span)
    (value : Instructions) :
    (nameAssignment op name place span value).length =
      oneIf op.binary?.isSome + value.length + oneIf op.binary?.isSome + 1 := by
  cases hb : op.binary? with
  | none => simp [nameAssignment, hb, oneIf]
  | some b =>
    simp [nameAssignment, hb, oneIf]
    omega

theorem length_elementAssignment (op : AssignOp) (place span : Span) (value : Instructions) :
    (elementAssignment op place span value).length =
      (if op.binary?.isSome then 2 else 0) + value.length + oneIf op.binary?.isSome + 1 := by
  cases hb : op.binary? with
  | none => simp [elementAssignment, hb, oneIf]
  | some b =>
    simp [elementAssignment, hb, oneIf]
    omega

@[simp] theorem length_onlyIf (q : Bool) (op : Operation CodeUnit) :
    (onlyIf q op).length = oneIf q := by
  cases q <;> rfl

@[simp] theorem length_negation (negate : Bool) : (negation negate).length = oneIf negate :=
  length_onlyIf ..

mutual

theorem length_lowerExpr {c : Context} {p : Spot} {code : Instructions} {b b' : Build} (e : Expr)
    (h : lowerExpr c p e b = .ok (code, b')) : code.length = e.size := by
  match e with
  | .missing | .undefined _ | .int .. | .float .. | .str .. | .ident .. =>
    simp only [lowerExpr, Lower.pure_eq_ok] at h
    simp [h, Expr.size]
  | .array elements _ =>
    simp only [lowerExpr, Lower.bind_eq_ok, Lower.pure_eq_ok] at h
    obtain ⟨values, b₁, h₁, rfl, rfl⟩ := h
    simp [Expr.size, length_lowerExprs elements h₁]
  | .index object index _ =>
    simp only [lowerExpr, Lower.bind_eq_ok, Lower.pure_eq_ok] at h
    obtain ⟨first, b₁, h₁, second, b₂, h₂, rfl, rfl⟩ := h
    simp [Expr.size, length_lowerExpr object h₁, length_lowerExpr index h₂]
    omega
  | .unary _ operand _ =>
    simp only [lowerExpr, Lower.bind_eq_ok, Lower.pure_eq_ok] at h
    obtain ⟨value, b₁, h₁, rfl, rfl⟩ := h
    simp [Expr.size, length_lowerExpr operand h₁]
  | .binary op left right _ =>
    obtain ⟨first, b₁, second, test, h₁, h₂, hop, rfl⟩ | ⟨hand, hor, first, b₁, second, h₁, h₂, rfl⟩ :=
      lowerExpr_binary h
    · have hl := length_lowerExpr left h₁
      have hr := length_lowerExpr right h₂
      rcases hop with ⟨rfl, rfl⟩ | ⟨rfl, rfl⟩ <;> simp [Expr.size, hl, hr] <;> omega
    · simp [size_binary hand hor, length_lowerExpr left h₁, length_lowerExpr right h₂]
      omega
  | .assign op left right _ =>
    match left with
    | .ident name place =>
      obtain ⟨value, h₁, rfl⟩ := lowerExpr_assignName h
      simp [Expr.size, length_nameAssignment, length_lowerExpr right h₁]
    | .index object index place =>
      obtain ⟨first, b₁, second, b₂, value, h₁, h₂, h₃, rfl⟩ := lowerExpr_assignElement h
      simp [Expr.size, length_elementAssignment, length_lowerExpr object h₁,
        length_lowerExpr index h₂, length_lowerExpr right h₃]
      omega
    | .missing | .str .. | .int .. | .float .. | .undefined _ | .array .. | .unary .. | .binary ..
    | .assign .. | .call .. | .closure .. => exact absurd h (lowerExpr_assignOther nofun nofun)
  | .call callee args _ =>
    simp only [lowerExpr, Lower.bind_eq_ok, Lower.pure_eq_ok] at h
    obtain ⟨first, b₁, h₁, second, b₂, h₂, rfl, rfl⟩ := h
    simp [Expr.size, length_lowerExpr callee h₁, length_lowerExprs args h₂]
    omega
  | .closure params body _ =>
    simp only [lowerExpr, Lower.bind_eq_ok, Lower.pure_eq_ok] at h
    -- The code of the body goes into a unit of its own.
    obtain ⟨unit, b₁, h₁, _, b₂, h₂, rfl, rfl⟩ := h
    rfl

theorem length_lowerExprs {c : Context} {p : Spot} {code : Instructions} {b b' : Build}
    (es : List Expr) (h : lowerExprs c p es b = .ok (code, b')) : code.length = exprsSize es := by
  match es with
  | [] =>
    simp only [lowerExprs, Lower.pure_eq_ok] at h
    simp [h, exprsSize]
  | e :: es =>
    simp only [lowerExprs, Lower.bind_eq_ok, Lower.pure_eq_ok] at h
    obtain ⟨first, b₁, h₁, rest, b₂, h₂, rfl, rfl⟩ := h
    simp [exprsSize, length_lowerExpr e h₁, length_lowerExprs es h₂]

end

theorem optionalSize_eq {e : Expr} (h : e ≠ .missing) : optionalSize e = e.size + 1 := by
  cases e <;> simp_all [optionalSize]

theorem length_lowerOptional {e : Expr} {last : Operation CodeUnit}
    (h : lowerOptional c p e last b = .ok (code, b')) : code.length = optionalSize e := by
  obtain ⟨rfl, rfl, rfl⟩ | ⟨hm, value, h₁, rfl⟩ := lowerOptional_eq_ok h
  · rfl
  · simp [length_lowerExpr e h₁, optionalSize_eq hm]

theorem length_lowerInit {init : Stmt} (h : lowerInit c p init b = .ok (code, b')) :
    code.length = initSize init := by
  obtain ⟨rfl, rfl, rfl⟩ | ⟨e, value, rfl, h₁, rfl⟩ := lowerInit_eq_ok h
  · rfl
  · simp [initSize, length_lowerExpr e h₁]

theorem length_ite_singleton {α : Type} (q : Bool) (x : α) :
    (if q then [x] else []).length = oneIf q := by
  cases q <;> rfl

mutual

theorem length_lowerStmt {c : Context} {p : Spot} {code : Instructions} {b b' : Build} (s : Stmt)
    (h : lowerStmt c p s b = .ok (code, b')) : code.length = s.size := by
  match s with
  | .missing =>
    simp only [lowerStmt, Lower.pure_eq_ok] at h
    simp [h, Stmt.size]
  | .expr e =>
    simp only [lowerStmt, Lower.bind_eq_ok, Lower.pure_eq_ok] at h
    obtain ⟨value, b₁, h₁, rfl, rfl⟩ := h
    simp [Stmt.size, length_lowerExpr e h₁]
  | .block body =>
    simp only [lowerStmt] at h
    simp [Stmt.size, length_lowerBlock body h]
  | .bare label body _ =>
    simp only [lowerStmt, Lower.bind_eq_ok, Lower.pure_eq_ok] at h
    obtain ⟨inside, b₁, h₁, rfl, rfl⟩ := h
    simp [Stmt.size, length_lowerScope _ body h₁]
    omega
  | .whileLoop label test negate body _ =>
    simp only [lowerStmt, Lower.bind_eq_ok, Lower.pure_eq_ok] at h
    obtain ⟨first, b₁, h₁, inside, b₂, h₂, rfl, rfl⟩ := h
    simp only [List.length_append, length_lowerExpr test h₁, length_lowerScope _ body h₂,
      length_negation, length_ite_singleton, List.length_cons, List.length_nil, Stmt.size]
  | .forLoop label init test step body _ =>
    simp only [lowerStmt_forLoop, Lower.bind_eq_ok, Lower.pure_eq_ok] at h
    obtain ⟨first, b₁, h₁, second, b₂, h₂, inside, b₃, h₃, third, b₄, h₄, rfl, rfl⟩ := h
    have hcall : (initHasCall init || test.hasCall || step.hasCall) = forHasCall init test step := rfl
    simp only [List.length_append, length_lowerInit h₁, length_lowerOptional h₂,
      length_lowerScope _ body h₃, length_lowerOptional h₄, length_ite_singleton, List.length_cons,
      List.length_nil, Stmt.size, hcall]
  | .foreachLoop label item iterable body _ =>
    simp only [lowerStmt, Lower.bind_eq_ok, Lower.pure_eq_ok] at h
    obtain ⟨first, b₁, h₁, inside, b₂, h₂, rfl, rfl⟩ := h
    simp only [List.length_append, length_lowerExpr iterable h₁, length_lowerScope _ body h₂,
      List.length_cons, List.length_nil, Stmt.size]
  | .ifChain test negate body clauses otherwise _ =>
    simp only [lowerStmt, Lower.bind_eq_ok, Lower.pure_eq_ok] at h
    obtain ⟨first, b₁, h₁, inside, b₂, h₂, more, b₃, h₃, last, b₄, h₄, rfl, rfl⟩ := h
    simp only [List.length_append, length_lowerExpr test h₁, length_lowerBlock body h₂,
      length_lowerClauses clauses h₃, length_lowerBlock otherwise h₄, length_negation,
      List.length_cons, List.length_nil, Stmt.size]
  | .verb kind label span =>
    simp only [lowerStmt] at h
    cases hk : MarkerKind.ofVerb? kind <;> simp [hk] at h
    simp [h, Stmt.size]
  | .tailCall callee args reuse _ =>
    cases reuse <;> simp only [lowerStmt, Lower.bind_eq_ok, Lower.pure_eq_ok, if_true, if_false,
      Bool.false_eq_true] at h
    · obtain ⟨first, b₁, h₁, second, b₂, h₂, rfl, rfl⟩ := h
      simp [Stmt.size, length_lowerExpr callee h₁, length_lowerExprs args h₂]
      omega
    · obtain ⟨first, b₁, h₁, second, b₂, ⟨rfl, rfl⟩, rfl, rfl⟩ := h
      simp [Stmt.size, length_lowerExpr callee h₁]
  | .ret argument _ =>
    simp only [lowerStmt, Lower.bind_eq_ok, Lower.pure_eq_ok] at h
    obtain ⟨value, b₁, h₁, rfl, rfl⟩ := h
    simp [Stmt.size, length_lowerExpr argument h₁]
  | .sub name params body _ =>
    simp only [lowerStmt, Lower.bind_eq_ok, Lower.pure_eq_ok] at h
    -- A declared sub leaves no code where it stands.
    obtain ⟨_, b₁, _, unit, b₂, _, _, b₃, _, rfl, rfl⟩ := h
    simp [Stmt.size]

theorem length_lowerBlock {c : Context} {p : Spot} {code : Instructions} {b b' : Build}
    (body : Block) (h : lowerBlock c p body b = .ok (code, b')) : code.length = body.size := by
  match body with
  | .missing =>
    simp only [lowerBlock, Lower.pure_eq_ok] at h
    simp [h, Block.size]
  | .mk stmts _ =>
    simp only [lowerBlock, Lower.bind_eq_ok, Lower.pure_eq_ok] at h
    obtain ⟨inside, b₁, h₁, rfl, rfl⟩ := h
    simp [Block.size, length_lowerStmts stmts h₁]
    omega

theorem length_lowerScope {c : Context} {p : Spot} {point : Instruction} {code : Instructions}
    {b b' : Build} (mode : DispatchMode) (body : Block)
    (h : lowerScope c mode point p body b = .ok (code, b')) : code.length = body.scopeSize mode := by
  match body with
  | .missing =>
    simp only [lowerScope, Lower.pure_eq_ok] at h
    cases mode <;> simp [h, Block.scopeSize, oneIf]
  | .mk stmts _ =>
    cases mode with
    | none =>
      simp only [lowerScope] at h
      simp [Block.scopeSize, length_lowerStmts stmts h]
    | loopEnd =>
      simp only [lowerScope, Lower.bind_eq_ok, Lower.pure_eq_ok] at h
      obtain ⟨inside, b₁, h₁, rfl, rfl⟩ := h
      simp [Block.scopeSize, length_lowerStmts stmts h₁]
    | perStatement =>
      simp only [lowerScope] at h
      -- An empty body still has one dispatch point.
      cases hs : stmts.isEmpty with
      | true =>
        simp only [hs, if_true, Lower.pure_eq_ok] at h
        simp [h, hs, Block.scopeSize]
      | false =>
        simp only [hs, Bool.false_eq_true, if_false] at h
        simp [Block.scopeSize, hs, length_lowerEach stmts h]

theorem length_lowerStmts {c : Context} {p : Spot} {code : Instructions} {b b' : Build}
    (stmts : List Stmt) (h : lowerStmts c p stmts b = .ok (code, b')) :
    code.length = stmtsSize stmts := by
  match stmts with
  | [] =>
    simp only [lowerStmts, Lower.pure_eq_ok] at h
    simp [h, stmtsSize]
  | s :: rest =>
    simp only [lowerStmts, Lower.bind_eq_ok, Lower.pure_eq_ok] at h
    obtain ⟨first, b₁, h₁, more, b₂, h₂, rfl, rfl⟩ := h
    simp [stmtsSize, length_lowerStmt s h₁, length_lowerStmts rest h₂]

theorem length_lowerEach {c : Context} {p : Spot} {point : Instruction} {code : Instructions}
    {b b' : Build} (stmts : List Stmt) (h : lowerEach c point p stmts b = .ok (code, b')) :
    code.length = stmtsSize stmts + stmts.length := by
  match stmts with
  | [] =>
    simp only [lowerEach, Lower.pure_eq_ok] at h
    simp [h, stmtsSize]
  | s :: rest =>
    simp only [lowerEach, Lower.bind_eq_ok, Lower.pure_eq_ok] at h
    obtain ⟨first, b₁, h₁, more, b₂, h₂, rfl, rfl⟩ := h
    simp [stmtsSize, length_lowerStmt s h₁, length_lowerEach rest h₂]
    omega

theorem length_lowerClauses {c : Context} {stop : Nat} {p : Spot} {code : Instructions}
    {b b' : Build} (clauses : List Clause) (h : lowerClauses c stop p clauses b = .ok (code, b')) :
    code.length = clausesSize clauses := by
  match clauses with
  | [] =>
    simp only [lowerClauses, Lower.pure_eq_ok] at h
    simp [h, clausesSize]
  | .mk test body :: rest =>
    simp only [lowerClauses, Lower.bind_eq_ok, Lower.pure_eq_ok] at h
    obtain ⟨first, b₁, h₁, inside, b₂, h₂, more, b₃, h₃, rfl, rfl⟩ := h
    simp [clausesSize, length_lowerExpr test h₁, length_lowerBlock body h₂,
      length_lowerClauses rest h₃]
    omega

end

end KestrelLang.Code
