import KestrelLang.Proofs.Code.Units
import KestrelLang.Proofs.Grammar.Placed

/-! # Units whose instructions say where they stand

Most instructions stand nowhere. Those that can fail, and those that leave their unit with a marker, take their place
from the tree.

* `Located` — a unit is what becomes of statements that stand somewhere.
* `InPlace` — what an instruction of such a unit says about its place.
* `inPlace_lowerExpr`, `inPlace_lowerStmt`, … — all instructions of lowered code are in place.
* `Located.inPlace`, `Located.closure` — those of a unit, and the units of its closures.
* `located_of_compile` — all units of a module that stands somewhere. -/

namespace KestrelLang

/-! ## Bodies -/

theorem Block.Placed.stmts {body : Block} (h : body.Placed) : stmtsPlaced body.stmts := by
  cases body with
  | missing => trivial
  | mk stmts span => exact h

mutual

theorem Expr.placed_bodies (e : Expr) (h : e.Placed) : ∀ body ∈ e.bodies, stmtsPlaced body := by
  match e with
  | .missing | .undefined _ | .int .. | .float .. | .str .. | .ident .. => exact List.forall_mem_nil _
  | .array elements _ => exact placed_exprsBodies elements h.2
  | .index object index _ =>
    exact List.forall_mem_append.mpr ⟨object.placed_bodies h.2.1, index.placed_bodies h.2.2⟩
  | .unary _ operand _ => exact operand.placed_bodies h.2
  | .binary _ left right _ | .assign _ left right _ =>
    exact List.forall_mem_append.mpr ⟨left.placed_bodies h.2.1, right.placed_bodies h.2.2⟩
  | .call callee args _ =>
    exact List.forall_mem_append.mpr ⟨callee.placed_bodies h.2.1, placed_exprsBodies args h.2.2⟩
  | .closure _ body _ => exact List.forall_mem_cons.mpr ⟨Block.Placed.stmts h.2, body.placed_bodies h.2⟩

theorem placed_exprsBodies (es : List Expr) (h : exprsPlaced es) : ∀ body ∈ exprsBodies es, stmtsPlaced body := by
  match es with
  | [] => exact List.forall_mem_nil _
  | e :: es => exact List.forall_mem_append.mpr ⟨e.placed_bodies h.1, placed_exprsBodies es h.2⟩

theorem Stmt.placed_bodies (s : Stmt) (h : s.Placed) : ∀ body ∈ s.bodies, stmtsPlaced body := by
  match s with
  | .missing | .verb .. => exact List.forall_mem_nil _
  | .expr e => exact e.placed_bodies h
  | .ret e _ => exact e.placed_bodies h.2
  | .block body => exact body.placed_bodies h
  | .bare _ body _ => exact body.placed_bodies h.2
  | .whileLoop _ e _ body _ | .foreachLoop _ _ e body _ =>
    exact List.forall_mem_append.mpr ⟨e.placed_bodies h.2.1, body.placed_bodies h.2.2⟩
  | .forLoop _ init test step body _ =>
    obtain ⟨-, hinit, htest, hstep, hbody⟩ := h
    simp only [Stmt.bodies, List.forall_mem_append]
    exact ⟨init.placed_bodies hinit, test.placed_bodies htest, step.placed_bodies hstep, body.placed_bodies hbody⟩
  | .ifChain test _ body clauses otherwise _ =>
    obtain ⟨-, htest, hbody, hclauses, hotherwise⟩ := h
    simp only [Stmt.bodies, List.forall_mem_append]
    exact ⟨test.placed_bodies htest, body.placed_bodies hbody, placed_clausesBodies clauses hclauses,
      otherwise.placed_bodies hotherwise⟩
  | .tailCall callee args _ _ =>
    exact List.forall_mem_append.mpr ⟨callee.placed_bodies h.2.1, placed_exprsBodies args h.2.2⟩
  | .sub _ _ body _ => exact List.forall_mem_cons.mpr ⟨Block.Placed.stmts h.2, body.placed_bodies h.2⟩

theorem Block.placed_bodies (body : Block) (h : body.Placed) : ∀ stmts ∈ body.bodies, stmtsPlaced stmts := by
  match body with
  | .missing => exact List.forall_mem_nil _
  | .mk stmts _ => exact placed_stmtsBodies stmts h

theorem placed_stmtsBodies (stmts : List Stmt) (h : stmtsPlaced stmts) :
    ∀ body ∈ stmtsBodies stmts, stmtsPlaced body := by
  match stmts with
  | [] => exact List.forall_mem_nil _
  | s :: rest => exact List.forall_mem_append.mpr ⟨s.placed_bodies h.1, placed_stmtsBodies rest h.2⟩

theorem placed_clausesBodies (clauses : List Clause) (h : clausesPlaced clauses) :
    ∀ body ∈ clausesBodies clauses, stmtsPlaced body := by
  match clauses with
  | [] => exact List.forall_mem_nil _
  | .mk test body :: rest =>
    obtain ⟨htest, hbody, hrest⟩ := h
    simp only [clausesBodies, List.forall_mem_append]
    exact ⟨test.placed_bodies htest, body.placed_bodies hbody, placed_clausesBodies rest hrest⟩

end

namespace Code

open KestrelLang.Label

/-! ## Instructions -/

/-- The unit is what becomes of statements that stand somewhere. -/
def Located (u : CodeUnit) : Prop := ∃ body, stmtsPlaced body ∧ CodeOf body u

/-- The instruction stands somewhere if it can fail, and a marker has its place and the name of its text. Turning a
    truth around cannot fail. -/
def InPlace (origin : String) (i : Instruction) : Prop :=
  match i.op with
  | .load _ | .binary _ | .indexGet | .indexSet | .call .. => i.span.Placed
  | .unary op => op = .not ∨ i.span.Placed
  | .signal marker => i.span.Placed ∧ marker.span = i.span ∧ marker.origin = origin
  | .makeSub u => Located u
  | _ => True

def AllInPlace (origin : String) (code : Instructions) : Prop := ∀ i ∈ code, InPlace origin i

namespace AllInPlace

variable {origin : String} {i : Instruction} {code rest : Instructions}

@[simp] theorem nil : AllInPlace origin [] := fun _ hi => absurd hi List.not_mem_nil

@[simp] theorem cons : AllInPlace origin (i :: rest) ↔ InPlace origin i ∧ AllInPlace origin rest :=
  List.forall_mem_cons

@[simp] theorem append : AllInPlace origin (code ++ rest) ↔ AllInPlace origin code ∧ AllInPlace origin rest :=
  List.forall_mem_append

end AllInPlace

section Pieces

variable {origin : String} {c : Context} {span : Span}

theorem inPlace_ite {q : Bool} {i : Instruction} (h : InPlace origin i) :
    AllInPlace origin (if q then [i] else []) := by
  cases q <;> simp [h]

theorem inPlace_negation (negate : Bool) : AllInPlace origin (negation negate) := inPlace_ite (.inl rfl)

theorem inPlace_point (label : Option Name) (targets : Continuations) (onward : JumpTarget) :
    InPlace origin (dispatchPoint label targets onward span) :=
  trivial

theorem inPlace_nameAssignment {value : Instructions} {place : Span} (op : AssignOp) (name : String)
    (hplace : place.Placed) (hspan : span.Placed) (hvalue : AllInPlace origin value) :
    AllInPlace origin (nameAssignment op name place span value) := by
  have hlast : InPlace origin (placed (if op = .declare then .declare name else .store name) span) := by
    split <;> trivial
  unfold nameAssignment
  cases op.binary? <;> simp only [AllInPlace.append, AllInPlace.cons, AllInPlace.nil, and_true]
  · exact ⟨hvalue, hlast⟩
  · exact ⟨⟨⟨hplace, hvalue⟩, hspan⟩, hlast⟩

theorem inPlace_elementAssignment {value : Instructions} {place : Span} (op : AssignOp) (hplace : place.Placed)
    (hspan : span.Placed) (hvalue : AllInPlace origin value) :
    AllInPlace origin (elementAssignment op place span value) := by
  unfold elementAssignment
  cases op.binary? <;> simp only [AllInPlace.append, AllInPlace.cons, AllInPlace.nil, and_true]
  · exact ⟨hvalue, hspan⟩
  · exact ⟨⟨⟨⟨trivial, hplace⟩, hvalue⟩, hspan⟩, hspan⟩

theorem inPlace_verbInstr (kind : MarkerKind) (label : String) (hspan : span.Placed) :
    InPlace c.origin (verbInstr c kind label span) := by
  unfold verbInstr
  split
  · trivial
  · exact ⟨hspan, rfl, rfl⟩

end Pieces

/-! ## Code -/

mutual

/-- The code of an expression that stands somewhere is in place. -/
theorem inPlace_lowerExpr {c : Context} {p : Spot} {code : Instructions} {b b' : Build} (e : Expr)
    (h : lowerExpr c p e b = .ok (code, b')) (he : e.Placed) : AllInPlace c.origin code := by
  match e with
  | .missing | .undefined _ | .int .. | .float .. | .str .. =>
    simp only [lowerExpr, Lower.pure_eq_ok] at h
    obtain ⟨rfl, rfl⟩ := h
    exact List.forall_mem_singleton.mpr trivial
  | .ident name _ =>
    simp only [lowerExpr, Lower.pure_eq_ok] at h
    obtain ⟨rfl, rfl⟩ := h
    exact List.forall_mem_singleton.mpr he
  | .array elements _ =>
    simp only [lowerExpr, Lower.bind_eq_ok, Lower.pure_eq_ok] at h
    obtain ⟨values, b₁, h₁, rfl, rfl⟩ := h
    simp only [AllInPlace.append, AllInPlace.cons, AllInPlace.nil, and_true]
    exact ⟨inPlace_lowerExprs elements h₁ he.2, trivial⟩
  | .index object index _ =>
    simp only [lowerExpr, Lower.bind_eq_ok, Lower.pure_eq_ok] at h
    obtain ⟨first, b₁, h₁, second, b₂, h₂, rfl, rfl⟩ := h
    obtain ⟨hspan, hobject, hindex⟩ := he
    simp only [AllInPlace.append, AllInPlace.cons, AllInPlace.nil, and_true]
    exact ⟨⟨inPlace_lowerExpr object h₁ hobject, inPlace_lowerExpr index h₂ hindex⟩, hspan⟩
  | .unary _ operand _ =>
    simp only [lowerExpr, Lower.bind_eq_ok, Lower.pure_eq_ok] at h
    obtain ⟨value, b₁, h₁, rfl, rfl⟩ := h
    simp only [AllInPlace.append, AllInPlace.cons, AllInPlace.nil, and_true]
    exact ⟨inPlace_lowerExpr operand h₁ he.2, .inr he.1⟩
  | .binary op left right _ =>
    obtain ⟨hspan, hleft, hright⟩ := he
    obtain ⟨first, b₁, second, test, h₁, h₂, htest, rfl⟩ | ⟨-, -, first, b₁, second, h₁, h₂, rfl⟩ :=
      lowerExpr_binary h
    all_goals
      have hfirst := inPlace_lowerExpr left h₁ hleft
      have hsecond := inPlace_lowerExpr right h₂ hright
      simp only [AllInPlace.append, AllInPlace.cons, AllInPlace.nil, and_true]
    · refine ⟨⟨hfirst, trivial, ?_, trivial⟩, hsecond⟩
      obtain ⟨-, rfl⟩ | ⟨-, rfl⟩ := htest <;> trivial
    · exact ⟨⟨hfirst, hsecond⟩, hspan⟩
  | .assign op left right _ =>
    obtain ⟨hspan, hleft, hright⟩ := he
    match left with
    | .ident name place =>
      obtain ⟨value, h₁, rfl⟩ := lowerExpr_assignName h
      exact inPlace_nameAssignment op name hleft hspan (inPlace_lowerExpr right h₁ hright)
    | .index object index place =>
      obtain ⟨first, b₁, second, b₂, value, h₁, h₂, h₃, rfl⟩ := lowerExpr_assignElement h
      obtain ⟨hplace, hobject, hindex⟩ := hleft
      simp only [AllInPlace.append]
      exact ⟨⟨inPlace_lowerExpr object h₁ hobject, inPlace_lowerExpr index h₂ hindex⟩,
        inPlace_elementAssignment op hplace hspan (inPlace_lowerExpr right h₃ hright)⟩
    | .missing | .str .. | .int .. | .float .. | .undefined _ | .array .. | .unary .. | .binary ..
    | .assign .. | .call .. | .closure .. => exact absurd h (lowerExpr_assignOther nofun nofun)
  | .call callee args _ =>
    simp only [lowerExpr, Lower.bind_eq_ok, Lower.pure_eq_ok] at h
    obtain ⟨first, b₁, h₁, second, b₂, h₂, rfl, rfl⟩ := h
    obtain ⟨hspan, hcallee, hargs⟩ := he
    simp only [AllInPlace.append, AllInPlace.cons, AllInPlace.nil, and_true]
    exact ⟨⟨inPlace_lowerExpr callee h₁ hcallee, inPlace_lowerExprs args h₂ hargs⟩, hspan⟩
  | .closure params body _ =>
    simp only [lowerExpr, Lower.bind_eq_ok, Lower.pure_eq_ok] at h
    -- The code of the body goes into a unit of its own.
    obtain ⟨u, b₁, h₁, _, b₂, _, rfl, rfl⟩ := h
    exact List.forall_mem_singleton.mpr ⟨body.stmts, Block.Placed.stmts he.2, codeOf_lowerBody h₁⟩

theorem inPlace_lowerExprs {c : Context} {p : Spot} {code : Instructions} {b b' : Build} (es : List Expr)
    (h : lowerExprs c p es b = .ok (code, b')) (hes : exprsPlaced es) : AllInPlace c.origin code := by
  match es with
  | [] =>
    simp only [lowerExprs, Lower.pure_eq_ok] at h
    simp [h]
  | e :: es =>
    simp only [lowerExprs, Lower.bind_eq_ok, Lower.pure_eq_ok] at h
    obtain ⟨first, b₁, h₁, rest, b₂, h₂, rfl, rfl⟩ := h
    exact AllInPlace.append.mpr ⟨inPlace_lowerExpr e h₁ hes.1, inPlace_lowerExprs es h₂ hes.2⟩

end

section Optional

variable {c : Context} {p : Spot} {code : Instructions} {b b' : Build}

theorem inPlace_lowerOptional {e : Expr} {last : Operation CodeUnit} (h : lowerOptional c p e last b = .ok (code, b'))
    (he : e.Placed) (hlast : InPlace c.origin (bare last)) : AllInPlace c.origin code := by
  obtain ⟨-, rfl, -⟩ | ⟨-, value, h₁, rfl⟩ := lowerOptional_eq_ok h
  · exact .nil
  · simp [inPlace_lowerExpr e h₁ he, hlast]

theorem inPlace_lowerInit {init : Stmt} (h : lowerInit c p init b = .ok (code, b')) (hinit : init.Placed) :
    AllInPlace c.origin code := by
  obtain ⟨-, rfl, -⟩ | ⟨e, value, rfl, h₁, rfl⟩ := lowerInit_eq_ok h
  · exact .nil
  · simp only [AllInPlace.append, AllInPlace.cons, AllInPlace.nil, and_true]
    exact ⟨inPlace_lowerExpr e h₁ hinit, trivial⟩

@[simp] theorem origin_headerContext (c : Context) (label : Option Name) (hasCall : Bool) (point : JumpTarget) :
    (headerContext c label hasCall point).origin = c.origin := by
  unfold headerContext
  split <;> rfl

end Optional

mutual

theorem inPlace_lowerStmt {c : Context} {p : Spot} {code : Instructions} {b b' : Build} (s : Stmt)
    (h : lowerStmt c p s b = .ok (code, b')) (hs : s.Placed) : AllInPlace c.origin code := by
  match s with
  | .missing =>
    simp only [lowerStmt, Lower.pure_eq_ok] at h
    simp [h]
  | .expr e =>
    simp only [lowerStmt, Lower.bind_eq_ok, Lower.pure_eq_ok] at h
    obtain ⟨value, b₁, h₁, rfl, rfl⟩ := h
    simp only [AllInPlace.append, AllInPlace.cons, AllInPlace.nil, and_true]
    exact ⟨inPlace_lowerExpr e h₁ hs, by cases c.isSub <;> trivial⟩
  | .block body =>
    simp only [lowerStmt] at h
    exact inPlace_lowerBlock body h hs
  | .verb kind label span =>
    simp only [lowerStmt] at h
    cases hk : MarkerKind.ofVerb? kind with
    | none => simp [hk] at h
    | some marker =>
      simp only [hk, Lower.pure_eq_ok] at h
      obtain ⟨rfl, rfl⟩ := h
      exact List.forall_mem_singleton.mpr (inPlace_verbInstr marker _ hs)
  | .tailCall callee args reuse span =>
    obtain ⟨-, hcallee, hargs⟩ := hs
    cases reuse <;> simp only [lowerStmt, Bool.false_eq_true, if_true, if_false, Lower.bind_eq_ok,
      Lower.pure_eq_ok] at h
    · obtain ⟨first, b₁, h₁, second, b₂, h₂, rfl, rfl⟩ := h
      simp only [AllInPlace.append, AllInPlace.cons, AllInPlace.nil, and_true]
      exact ⟨⟨inPlace_lowerExpr callee h₁ hcallee, inPlace_lowerExprs args h₂ hargs⟩, trivial⟩
    -- The arguments of the frame are used again, so there is no code for them.
    · obtain ⟨first, b₁, h₁, second, b₂, ⟨rfl, rfl⟩, rfl, rfl⟩ := h
      simp only [List.append_nil, AllInPlace.append, AllInPlace.cons, AllInPlace.nil, and_true]
      exact ⟨inPlace_lowerExpr callee h₁ hcallee, trivial⟩
  | .ret argument _ =>
    simp only [lowerStmt, Lower.bind_eq_ok, Lower.pure_eq_ok] at h
    obtain ⟨value, b₁, h₁, rfl, rfl⟩ := h
    simp only [AllInPlace.append, AllInPlace.cons, AllInPlace.nil, and_true]
    exact ⟨inPlace_lowerExpr argument h₁ hs.2, trivial⟩
  | .sub name params body _ =>
    simp only [lowerStmt, Lower.bind_eq_ok, Lower.pure_eq_ok] at h
    obtain ⟨_, b₁, _, unit, b₂, _, _, b₃, _, rfl, rfl⟩ := h
    exact .nil
  | .bare label body span =>
    simp only [lowerStmt, Lower.bind_eq_ok, Lower.pure_eq_ok] at h
    obtain ⟨inside, b₁, h₁, rfl, rfl⟩ := h
    have hscope := inPlace_lowerScope body h₁ hs.2 (inPlace_point ..)
    simp only [AllInPlace.append, AllInPlace.cons, AllInPlace.nil, and_true]
    exact ⟨⟨trivial, hscope⟩, trivial⟩
  | .whileLoop label test negate body span =>
    simp only [lowerStmt, Lower.bind_eq_ok, Lower.pure_eq_ok] at h
    obtain ⟨first, b₁, h₁, inside, b₂, h₂, rfl, rfl⟩ := h
    have hfirst : AllInPlace c.origin first := by
      have htest := inPlace_lowerExpr test h₁ hs.2.1
      split at htest <;> exact htest
    have hscope := inPlace_lowerScope body h₂ hs.2.2 (inPlace_point ..)
    simp only [AllInPlace.append, AllInPlace.cons, AllInPlace.nil, and_true]
    exact ⟨⟨⟨⟨⟨⟨hfirst, inPlace_negation negate⟩, trivial⟩, trivial⟩, hscope⟩, trivial, trivial⟩,
      inPlace_ite trivial⟩
  | .forLoop label init test step body span =>
    simp only [lowerStmt_forLoop, Lower.bind_eq_ok, Lower.pure_eq_ok] at h
    obtain ⟨first, b₁, h₁, second, b₂, h₂, inside, b₃, h₃, third, b₄, h₄, rfl, rfl⟩ := h
    obtain ⟨-, hinit, htest, hstep, hbody⟩ := hs
    have hfirst := inPlace_lowerInit h₁ hinit
    have hsecond := inPlace_lowerOptional h₂ htest trivial
    have hscope := inPlace_lowerScope body h₃ hbody (inPlace_point ..)
    have hthird := inPlace_lowerOptional h₄ hstep trivial
    rw [forHeader, origin_headerContext] at hfirst hsecond hthird
    simp only [AllInPlace.append, AllInPlace.cons, AllInPlace.nil, and_true]
    exact ⟨⟨⟨⟨⟨⟨⟨⟨⟨trivial, hfirst⟩, hsecond⟩, trivial⟩, hscope⟩, trivial⟩, hthird⟩, trivial⟩,
      inPlace_ite trivial⟩, trivial⟩
  | .foreachLoop label item iterable body span =>
    simp only [lowerStmt, Lower.bind_eq_ok, Lower.pure_eq_ok] at h
    obtain ⟨first, b₁, h₁, inside, b₂, h₂, rfl, rfl⟩ := h
    have hscope := inPlace_lowerScope body h₂ hs.2.2 (inPlace_point ..)
    simp only [AllInPlace.append, AllInPlace.cons, AllInPlace.nil, and_true]
    exact ⟨⟨⟨⟨inPlace_lowerExpr iterable h₁ hs.2.1, trivial, trivial⟩, trivial, trivial⟩, hscope⟩,
      trivial, trivial, trivial⟩
  | .ifChain test negate body clauses otherwise span =>
    simp only [lowerStmt, Lower.bind_eq_ok, Lower.pure_eq_ok] at h
    obtain ⟨first, b₁, h₁, inside, b₂, h₂, more, b₃, h₃, last, b₄, h₄, rfl, rfl⟩ := h
    obtain ⟨-, htest, hbody, hclauses, hotherwise⟩ := hs
    have hfirst := inPlace_lowerExpr test h₁ htest
    have hinside := inPlace_lowerBlock body h₂ hbody
    have hmore := inPlace_lowerClauses clauses h₃ hclauses
    have hlast := inPlace_lowerBlock otherwise h₄ hotherwise
    simp only [AllInPlace.append, AllInPlace.cons, AllInPlace.nil, and_true]
    exact ⟨⟨⟨⟨⟨⟨hfirst, inPlace_negation negate⟩, trivial⟩, hinside⟩, trivial⟩, hmore⟩, hlast⟩

theorem inPlace_lowerBlock {c : Context} {p : Spot} {code : Instructions} {b b' : Build} (body : Block)
    (h : lowerBlock c p body b = .ok (code, b')) (hbody : body.Placed) : AllInPlace c.origin code := by
  match body with
  | .missing =>
    simp only [lowerBlock, Lower.pure_eq_ok] at h
    simp [h]
  | .mk stmts _ =>
    simp only [lowerBlock, Lower.bind_eq_ok, Lower.pure_eq_ok] at h
    obtain ⟨inside, b₁, h₁, rfl, rfl⟩ := h
    simp only [AllInPlace.append, AllInPlace.cons, AllInPlace.nil, and_true]
    exact ⟨⟨trivial, inPlace_lowerStmts stmts h₁ hbody⟩, trivial⟩

theorem inPlace_lowerStmts {c : Context} {p : Spot} {code : Instructions} {b b' : Build} (stmts : List Stmt)
    (h : lowerStmts c p stmts b = .ok (code, b')) (hstmts : stmtsPlaced stmts) : AllInPlace c.origin code := by
  match stmts with
  | [] =>
    simp only [lowerStmts, Lower.pure_eq_ok] at h
    simp [h]
  | s :: rest =>
    simp only [lowerStmts, Lower.bind_eq_ok, Lower.pure_eq_ok] at h
    obtain ⟨first, b₁, h₁, more, b₂, h₂, rfl, rfl⟩ := h
    exact AllInPlace.append.mpr ⟨inPlace_lowerStmt s h₁ hstmts.1, inPlace_lowerStmts rest h₂ hstmts.2⟩

theorem inPlace_lowerEach {c : Context} {point : Instruction} {p : Spot} {code : Instructions} {b b' : Build}
    (stmts : List Stmt) (h : lowerEach c point p stmts b = .ok (code, b')) (hstmts : stmtsPlaced stmts)
    (hpoint : InPlace c.origin point) : AllInPlace c.origin code := by
  match stmts with
  | [] =>
    simp only [lowerEach, Lower.pure_eq_ok] at h
    simp [h]
  | s :: rest =>
    simp only [lowerEach, Lower.bind_eq_ok, Lower.pure_eq_ok] at h
    obtain ⟨first, b₁, h₁, more, b₂, h₂, rfl, rfl⟩ := h
    have hfirst := inPlace_lowerStmt s h₁ hstmts.1
    have hmore := inPlace_lowerEach rest h₂ hstmts.2 hpoint
    simp only [AllInPlace.append, AllInPlace.cons, AllInPlace.nil, and_true]
    exact ⟨⟨hfirst, hpoint⟩, hmore⟩

theorem inPlace_lowerScope {c : Context} {mode : DispatchMode} {point : Instruction} {p : Spot}
    {code : Instructions} {b b' : Build} (body : Block) (h : lowerScope c mode point p body b = .ok (code, b'))
    (hbody : body.Placed) (hpoint : InPlace c.origin point) : AllInPlace c.origin code := by
  have halone : AllInPlace c.origin [point] := by simp [hpoint]
  match body with
  | .missing =>
    simp only [lowerScope, Lower.pure_eq_ok] at h
    obtain ⟨rfl, rfl⟩ := h
    cases mode with
    | none => exact .nil
    | loopEnd | perStatement => exact halone
  | .mk stmts _ =>
    cases mode with
    | none =>
      simp only [lowerScope] at h
      exact inPlace_lowerStmts stmts h hbody
    | loopEnd =>
      simp only [lowerScope, Lower.bind_eq_ok, Lower.pure_eq_ok] at h
      obtain ⟨inside, b₁, h₁, rfl, rfl⟩ := h
      have hinside := inPlace_lowerStmts stmts h₁ hbody
      exact AllInPlace.append.mpr ⟨hinside, halone⟩
    | perStatement =>
      simp only [lowerScope] at h
      split at h
      · obtain ⟨rfl, rfl⟩ := Lower.pure_eq_ok.mp h
        exact halone
      · exact inPlace_lowerEach stmts h hbody hpoint

theorem inPlace_lowerClauses {c : Context} {stop : Nat} {p : Spot} {code : Instructions} {b b' : Build}
    (clauses : List Clause) (h : lowerClauses c stop p clauses b = .ok (code, b')) (hclauses : clausesPlaced clauses) :
    AllInPlace c.origin code := by
  match clauses with
  | [] =>
    simp only [lowerClauses, Lower.pure_eq_ok] at h
    simp [h]
  | .mk test body :: rest =>
    simp only [lowerClauses, Lower.bind_eq_ok, Lower.pure_eq_ok] at h
    obtain ⟨first, b₁, h₁, inside, b₂, h₂, more, b₃, h₃, rfl, rfl⟩ := h
    obtain ⟨htest, hbody, hrest⟩ := hclauses
    have hfirst := inPlace_lowerExpr test h₁ htest
    have hinside := inPlace_lowerBlock body h₂ hbody
    have hmore := inPlace_lowerClauses rest h₃ hrest
    simp only [AllInPlace.append, AllInPlace.cons, AllInPlace.nil, and_true]
    exact ⟨⟨⟨⟨hfirst, trivial⟩, hinside⟩, trivial⟩, hmore⟩

end

/-! ## Units -/

section Units

variable {u : CodeUnit} {ip : Nat} {i : Instruction}

theorem Located.inPlace (h : Located u) (hi : u.code[ip]? = some i) : InPlace u.origin i := by
  obtain ⟨body, hbody, hcode⟩ := h
  obtain ⟨code, b, b', hlower, hu⟩ := hcode.lowered
  have hall : AllInPlace u.origin (code ++ unitEnd u.isSub) := by
    refine AllInPlace.append.mpr ⟨inPlace_lowerStmts body hlower hbody, ?_⟩
    cases u.isSub <;> exact List.forall_mem_cons.mpr ⟨trivial, List.forall_mem_singleton.mpr trivial⟩
  rw [hu, List.getElem?_toArray] at hi
  exact hall i (List.mem_of_getElem? hi)

theorem Located.closure {v : CodeUnit} (h : Located u) (hi : u.code[ip]? = some i) (hop : i.op = .makeSub v) :
    Located v := by
  have hplace := h.inPlace hi
  simpa only [InPlace, hop] using hplace

theorem located_of_compile {origin : String} {m : Module} {p : Program} (h : compile origin m = .ok p)
    (hm : stmtsPlaced m.body) (hu : u ∈ p.units) : Located u := by
  have hbodies : ∀ body ∈ m.bodies, stmtsPlaced body :=
    List.forall_mem_cons.mpr ⟨hm, placed_stmtsBodies m.body hm⟩
  obtain ⟨body, hmem, hcode⟩ := codeOf_of_compile h hu
  exact ⟨body, hbodies body hmem, hcode⟩

end Units

end Code

end KestrelLang
