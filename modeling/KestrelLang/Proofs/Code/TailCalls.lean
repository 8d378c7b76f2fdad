import KestrelLang.Proofs.Label.Verbs

/-! # Units without tail calls

* `NoTailCall` — no instruction of the code parks a tail call.
* `noTailCall_lowerStmts` — outside of subs a walk refuses tail calls, so the code has none.
* `CodeOf.noTailCall` — a unit that is no sub has none. -/

namespace KestrelLang.Code

open KestrelLang.Label

def isTailCall : Operation CodeUnit → Bool
  | .tailCall .. => true
  | _ => false

/-- No instruction of the code parks a tail call. -/
def NoTailCall (code : Instructions) : Prop := ∀ i ∈ code, isTailCall i.op = false

namespace NoTailCall

variable {i : Instruction} {code rest : Instructions}

@[simp] theorem nil : NoTailCall [] := fun _ hi => absurd hi List.not_mem_nil

@[simp] theorem cons : NoTailCall (i :: rest) ↔ isTailCall i.op = false ∧ NoTailCall rest :=
  List.forall_mem_cons

@[simp] theorem append : NoTailCall (code ++ rest) ↔ NoTailCall code ∧ NoTailCall rest :=
  List.forall_mem_append

end NoTailCall

section Pieces

variable {c : Context} {p : Spot} {code : Instructions} {b b' : Build}

theorem ExprOperation.noTailCall {landing : JumpTarget} {calls : Bool} {op : Operation CodeUnit}
    (h : ExprOperation landing calls op) : isTailCall op = false := by
  cases op with
  | tailCall count reuse => exact h.elim
  | _ => rfl

theorem noTailCall_lowerExpr {e : Expr} (h : lowerExpr c p e b = .ok (code, b')) : NoTailCall code :=
  fun i hi => (operations_lowerExpr e h i hi).noTailCall

theorem noTailCall_lowerOptional {e : Expr} {last : Operation CodeUnit}
    (h : lowerOptional c p e last b = .ok (code, b')) (hlast : isTailCall last = false) :
    NoTailCall code := by
  obtain ⟨-, rfl, -⟩ | ⟨-, value, h₁, rfl⟩ := lowerOptional_eq_ok h
  · exact .nil
  · simp [noTailCall_lowerExpr h₁, bare, hlast]

theorem noTailCall_lowerInit {init : Stmt} (h : lowerInit c p init b = .ok (code, b')) :
    NoTailCall code := by
  obtain ⟨-, rfl, -⟩ | ⟨e, value, -, h₁, rfl⟩ := lowerInit_eq_ok h
  · exact .nil
  · simp [noTailCall_lowerExpr h₁, bare, isTailCall]

theorem noTailCall_onlyIf {q : Bool} {i : Instruction} (h : isTailCall i.op = false) :
    NoTailCall (if q then [i] else []) := by
  cases q <;> simp [h]

theorem noTailCall_negation (negate : Bool) : NoTailCall (negation negate) := noTailCall_onlyIf rfl

end Pieces

mutual

/-- A statement that a walk outside of subs accepts has no tail call in its code. -/
theorem noTailCall_lowerStmt {c : Context} {p : Spot} {code : Instructions} {b b' : Build}
    {info : UnitInfo} {enclosing : List Scope} {next next' : Nat} {items : List Item} (s : Stmt)
    (h : lowerStmt c p s b = .ok (code, b'))
    (hwalk : walkStmt info enclosing next s = .ok (items, next')) (hmain : info.inSub = false) :
    NoTailCall code := by
  match s with
  | .missing =>
    simp only [lowerStmt, Lower.pure_eq_ok] at h
    simp [h]
  | .expr e =>
    simp only [lowerStmt, Lower.bind_eq_ok, Lower.pure_eq_ok] at h
    obtain ⟨value, b₁, h₁, rfl, rfl⟩ := h
    simp only [NoTailCall.append, NoTailCall.cons, NoTailCall.nil, and_true]
    exact ⟨noTailCall_lowerExpr h₁, by cases c.isSub <;> rfl⟩
  | .block body =>
    simp only [lowerStmt] at h
    simp only [walkStmt] at hwalk
    exact noTailCall_lowerBlock body h hwalk hmain
  | .verb kind label span =>
    simp only [lowerStmt] at h
    cases hk : MarkerKind.ofVerb? kind with
    | none => simp [hk] at h
    | some marker =>
      simp only [hk, Lower.pure_eq_ok] at h
      obtain ⟨rfl, rfl⟩ := h
      simp only [NoTailCall.cons, NoTailCall.nil, and_true]
      unfold verbInstr
      split <;> rfl
  -- Outside of subs the walk refuses it.
  | .tailCall callee args reuse span =>
    simp [walkStmt, hmain] at hwalk
  | .ret argument _ =>
    simp only [lowerStmt, Lower.bind_eq_ok, Lower.pure_eq_ok] at h
    obtain ⟨value, b₁, h₁, rfl, rfl⟩ := h
    simp [noTailCall_lowerExpr h₁, placed, isTailCall]
  | .sub name params body _ =>
    simp only [lowerStmt, Lower.bind_eq_ok, Lower.pure_eq_ok] at h
    obtain ⟨_, b₁, _, unit, b₂, _, _, b₃, _, rfl, rfl⟩ := h
    exact .nil
  | .bare label body span =>
    simp only [lowerStmt, Lower.bind_eq_ok, Lower.pure_eq_ok] at h
    obtain ⟨inside, b₁, h₁, rfl, rfl⟩ := h
    simp only [walkStmt, Label.bind_eq_ok, Label.pure_eq_ok, Prod.mk.injEq, Prod.exists] at hwalk
    obtain ⟨items', n, hinside, rfl, rfl⟩ := hwalk
    have hscope := noTailCall_lowerScope body h₁ hinside hmain rfl
    simp [hscope, bare, isTailCall]
  | .whileLoop label test negate body span =>
    simp only [lowerStmt, Lower.bind_eq_ok, Lower.pure_eq_ok] at h
    obtain ⟨first, b₁, h₁, inside, b₂, h₂, rfl, rfl⟩ := h
    simp only [walkStmt, Label.bind_eq_ok, Label.pure_eq_ok, Prod.mk.injEq, Prod.exists] at hwalk
    obtain ⟨items', n, hinside, rfl, rfl⟩ := hwalk
    have hscope := noTailCall_lowerScope body h₂ hinside hmain rfl
    simp only [NoTailCall.append, NoTailCall.cons, NoTailCall.nil, and_true]
    exact ⟨⟨⟨⟨⟨⟨noTailCall_lowerExpr h₁, noTailCall_negation negate⟩, rfl⟩, rfl⟩, hscope⟩, rfl, rfl⟩,
      noTailCall_onlyIf rfl⟩
  | .forLoop label init test step body span =>
    simp only [lowerStmt_forLoop, Lower.bind_eq_ok, Lower.pure_eq_ok] at h
    obtain ⟨first, b₁, h₁, second, b₂, h₂, inside, b₃, h₃, third, b₄, h₄, rfl, rfl⟩ := h
    simp only [walkStmt, Label.bind_eq_ok, Label.pure_eq_ok, Prod.mk.injEq, Prod.exists] at hwalk
    obtain ⟨items₁, n, -, items₂, n', hinside, rfl, rfl⟩ := hwalk
    have hscope := noTailCall_lowerScope body h₃ hinside hmain rfl
    simp only [NoTailCall.append, NoTailCall.cons, NoTailCall.nil, and_true]
    exact ⟨⟨⟨⟨⟨⟨⟨⟨⟨rfl, noTailCall_lowerInit h₁⟩, noTailCall_lowerOptional h₂ rfl⟩, rfl⟩, hscope⟩, rfl⟩,
      noTailCall_lowerOptional h₄ rfl⟩, rfl⟩, noTailCall_onlyIf rfl⟩, rfl⟩
  | .foreachLoop label item iterable body span =>
    simp only [lowerStmt, Lower.bind_eq_ok, Lower.pure_eq_ok] at h
    obtain ⟨first, b₁, h₁, inside, b₂, h₂, rfl, rfl⟩ := h
    simp only [walkStmt, Label.bind_eq_ok, Label.pure_eq_ok, Prod.mk.injEq, Prod.exists] at hwalk
    obtain ⟨items', n, hinside, rfl, rfl⟩ := hwalk
    have hscope := noTailCall_lowerScope body h₂ hinside hmain rfl
    simp [noTailCall_lowerExpr h₁, hscope, bare, placed, isTailCall]
  | .ifChain test negate body clauses otherwise span =>
    simp only [lowerStmt, Lower.bind_eq_ok, Lower.pure_eq_ok] at h
    obtain ⟨first, b₁, h₁, inside, b₂, h₂, more, b₃, h₃, last, b₄, h₄, rfl, rfl⟩ := h
    simp only [walkStmt, Label.bind_eq_ok, Label.pure_eq_ok, Prod.mk.injEq, Prod.exists] at hwalk
    obtain ⟨items₁, n₁, hw₁, items₂, n₂, hw₂, items₃, n₃, hw₃, rfl, rfl⟩ := hwalk
    have hfirst := noTailCall_lowerBlock body h₂ hw₁ hmain
    have hsecond := noTailCall_lowerClauses clauses h₃ hw₂ hmain
    have hthird := noTailCall_lowerBlock otherwise h₄ hw₃ hmain
    simp [noTailCall_lowerExpr h₁, noTailCall_negation, hfirst, hsecond, hthird, bare, isTailCall]

theorem noTailCall_lowerBlock {c : Context} {p : Spot} {code : Instructions} {b b' : Build}
    {info : UnitInfo} {enclosing : List Scope} {next next' : Nat} {items : List Item} (body : Block)
    (h : lowerBlock c p body b = .ok (code, b'))
    (hwalk : walkBlock info enclosing next body = .ok (items, next')) (hmain : info.inSub = false) :
    NoTailCall code := by
  match body with
  | .missing =>
    simp only [lowerBlock, Lower.pure_eq_ok] at h
    simp [h]
  | .mk stmts _ =>
    simp only [lowerBlock, Lower.bind_eq_ok, Lower.pure_eq_ok] at h
    obtain ⟨inside, b₁, h₁, rfl, rfl⟩ := h
    simp only [walkBlock] at hwalk
    have hstmts := noTailCall_lowerStmts stmts h₁ hwalk hmain
    simp [hstmts, bare, isTailCall]

theorem noTailCall_lowerStmts {c : Context} {p : Spot} {code : Instructions} {b b' : Build}
    {info : UnitInfo} {enclosing : List Scope} {next next' : Nat} {items : List Item}
    (stmts : List Stmt) (h : lowerStmts c p stmts b = .ok (code, b'))
    (hwalk : walkStmts info enclosing next stmts = .ok (items, next')) (hmain : info.inSub = false) :
    NoTailCall code := by
  match stmts with
  | [] =>
    simp only [lowerStmts, Lower.pure_eq_ok] at h
    simp [h]
  | s :: rest =>
    simp only [lowerStmts, Lower.bind_eq_ok, Lower.pure_eq_ok] at h
    obtain ⟨first, b₁, h₁, more, b₂, h₂, rfl, rfl⟩ := h
    simp only [walkStmts, Label.bind_eq_ok, Label.pure_eq_ok, Prod.mk.injEq, Prod.exists] at hwalk
    obtain ⟨items₁, n₁, hw₁, items₂, n₂, hw₂, rfl, rfl⟩ := hwalk
    simp only [NoTailCall.append]
    exact ⟨noTailCall_lowerStmt s h₁ hw₁ hmain, noTailCall_lowerStmts rest h₂ hw₂ hmain⟩

theorem noTailCall_lowerEach {c : Context} {point : Instruction} {p : Spot} {code : Instructions}
    {b b' : Build} {info : UnitInfo} {enclosing : List Scope} {next next' : Nat} {items : List Item}
    (stmts : List Stmt) (h : lowerEach c point p stmts b = .ok (code, b'))
    (hwalk : walkStmts info enclosing next stmts = .ok (items, next')) (hmain : info.inSub = false)
    (hpoint : isTailCall point.op = false) : NoTailCall code := by
  match stmts with
  | [] =>
    simp only [lowerEach, Lower.pure_eq_ok] at h
    simp [h]
  | s :: rest =>
    simp only [lowerEach, Lower.bind_eq_ok, Lower.pure_eq_ok] at h
    obtain ⟨first, b₁, h₁, more, b₂, h₂, rfl, rfl⟩ := h
    simp only [walkStmts, Label.bind_eq_ok, Label.pure_eq_ok, Prod.mk.injEq, Prod.exists] at hwalk
    obtain ⟨items₁, n₁, hw₁, items₂, n₂, hw₂, rfl, rfl⟩ := hwalk
    have hfirst := noTailCall_lowerStmt s h₁ hw₁ hmain
    have hmore := noTailCall_lowerEach rest h₂ hw₂ hmain hpoint
    simp [hfirst, hmore, hpoint]

theorem noTailCall_lowerScope {c : Context} {mode : DispatchMode} {point : Instruction} {p : Spot}
    {code : Instructions} {b b' : Build} {info : UnitInfo} {enclosing : List Scope} {next next' : Nat}
    {items : List Item} (body : Block) (h : lowerScope c mode point p body b = .ok (code, b'))
    (hwalk : walkBlock info enclosing next body = .ok (items, next')) (hmain : info.inSub = false)
    (hpoint : isTailCall point.op = false) : NoTailCall code := by
  have halone : NoTailCall [point] := by simp [hpoint]
  match body with
  | .missing =>
    simp only [lowerScope, Lower.pure_eq_ok] at h
    obtain ⟨rfl, rfl⟩ := h
    cases mode with
    | none => exact .nil
    | loopEnd | perStatement => exact halone
  | .mk stmts _ =>
    simp only [walkBlock] at hwalk
    cases mode with
    | none =>
      simp only [lowerScope] at h
      exact noTailCall_lowerStmts stmts h hwalk hmain
    | loopEnd =>
      simp only [lowerScope, Lower.bind_eq_ok, Lower.pure_eq_ok] at h
      obtain ⟨inside, b₁, h₁, rfl, rfl⟩ := h
      simp [noTailCall_lowerStmts stmts h₁ hwalk hmain, halone]
    | perStatement =>
      simp only [lowerScope] at h
      split at h
      · obtain ⟨rfl, rfl⟩ := Lower.pure_eq_ok.mp h
        exact halone
      · exact noTailCall_lowerEach stmts h hwalk hmain hpoint

theorem noTailCall_lowerClauses {c : Context} {stop : Nat} {p : Spot} {code : Instructions}
    {b b' : Build} {info : UnitInfo} {enclosing : List Scope} {next next' : Nat} {items : List Item}
    (clauses : List Clause) (h : lowerClauses c stop p clauses b = .ok (code, b'))
    (hwalk : walkClauses info enclosing next clauses = .ok (items, next'))
    (hmain : info.inSub = false) : NoTailCall code := by
  match clauses with
  | [] =>
    simp only [lowerClauses, Lower.pure_eq_ok] at h
    simp [h]
  | .mk test body :: rest =>
    simp only [lowerClauses, Lower.bind_eq_ok, Lower.pure_eq_ok] at h
    obtain ⟨first, b₁, h₁, inside, b₂, h₂, more, b₃, h₃, rfl, rfl⟩ := h
    simp only [walkClauses, Label.bind_eq_ok, Label.pure_eq_ok, Prod.mk.injEq, Prod.exists] at hwalk
    obtain ⟨items₁, n₁, hw₁, items₂, n₂, hw₂, rfl, rfl⟩ := hwalk
    have hfirst := noTailCall_lowerBlock body h₂ hw₁ hmain
    have hsecond := noTailCall_lowerClauses rest h₃ hw₂ hmain
    simp [noTailCall_lowerExpr h₁, hfirst, hsecond, bare, isTailCall]

end

/-! ## Units -/

theorem CodeOf.noTailCall {body : List Stmt} {u : CodeUnit} (h : CodeOf body u)
    (hmain : u.isSub = false) : NoTailCall u.code.toList := by
  obtain ⟨code, b, b', hcode, hu⟩ := h.lowered
  obtain ⟨items, n, hwalk, -⟩ := h.walked
  have hend : NoTailCall (unitEnd u.isSub) := by
    cases u.isSub <;> simp [unitEnd, bare, isTailCall]
  rw [hu, List.toList_toArray, NoTailCall.append]
  exact ⟨noTailCall_lowerStmts body hcode hwalk hmain, hend⟩

end KestrelLang.Code
