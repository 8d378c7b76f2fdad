import KestrelLang.Label.Resolution

/-! # Places of statements in a unit

A statement is made of statements, down to those that are made of none. Where one stands among the statements of a
unit is a path of indices, and paths are in the order of the text when they are in lexicographic order.

* `Stmt.parts` — the statements of which a statement is made.
* `stmtAt?` — the statement at a path.
* `Heading`, `headingAt?` — what a loop or bare block says about itself.
* `Stmt.parts_induction` — what holds of a statement whose parts have it holds of all.
* `walkStmt_of_heading`, `walkStmt_of_plain`, … — a walk in terms of parts. -/

namespace KestrelLang

/-! ## Parts -/

def Clause.stmts : Clause → List Stmt
  | .mk _ body => body.stmts

/-- The statements of which a statement is made, in the order of the text. The body of a sub belongs to another unit,
    and so do the bodies of closures. -/
def Stmt.parts : Stmt → List Stmt
  | .block body | .bare _ body _ | .whileLoop _ _ _ body _ | .foreachLoop _ _ _ body _ => body.stmts
  | .forLoop _ init _ _ body _ => init :: body.stmts
  | .ifChain _ _ body clauses otherwise _ =>
    body.stmts ++ (clauses.flatMap Clause.stmts ++ otherwise.stmts)
  | .missing | .expr _ | .verb .. | .tailCall .. | .ret .. | .sub .. => []

theorem Block.sizeOf_lt {b : Block} {t : Stmt} (h : t ∈ b.stmts) : sizeOf t < sizeOf b := by
  cases b with
  | missing => cases h
  | mk body span =>
    have hlt : sizeOf t < sizeOf body := List.sizeOf_lt_of_mem h
    simp only [Block.mk.sizeOf_spec]
    omega

theorem Clause.sizeOf_lt {clauses : List Clause} {t : Stmt} (h : t ∈ clauses.flatMap Clause.stmts) :
    sizeOf t < sizeOf clauses := by
  obtain ⟨⟨test, body⟩, hc, ht⟩ := List.mem_flatMap.mp h
  have hbody := Block.sizeOf_lt ht
  have hclause := List.sizeOf_lt_of_mem hc
  simp only [Clause.mk.sizeOf_spec] at hclause
  omega

theorem Stmt.sizeOf_lt {s t : Stmt} (h : t ∈ s.parts) : sizeOf t < sizeOf s := by
  cases s with
  | missing | expr | verb | tailCall | ret | sub => cases h
  | block body | bare _ body | whileLoop _ _ _ body | foreachLoop _ _ _ body =>
    have hlt := Block.sizeOf_lt (b := body) h
    simp
    omega
  | forLoop label init test step body span =>
    obtain rfl | h := List.mem_cons.mp h
    · simp
      omega
    · have hlt := Block.sizeOf_lt h
      simp
      omega
  | ifChain test negate body clauses otherwise span =>
    simp only [Stmt.parts, List.mem_append] at h
    obtain h | h | h := h
    · have hlt := Block.sizeOf_lt h
      simp
      omega
    · have hlt := Clause.sizeOf_lt h
      simp
      omega
    · have hlt := Block.sizeOf_lt h
      simp
      omega

/-- What holds of every statement whose parts have it holds of all statements. -/
theorem Stmt.parts_induction {P : Stmt → Prop} (h : ∀ s, (∀ t ∈ s.parts, P t) → P s) (s : Stmt) : P s :=
  -- The parts come out of blocks and clauses, so they are smaller without being arguments of a constructor.
  h s fun t _ => parts_induction h t
termination_by sizeOf s
decreasing_by exact Stmt.sizeOf_lt ‹_›

/-! ## Places -/

/-- Where a statement stands: its index, or that of the statement around it and then its place among the parts. -/
abbrev Path := List Nat

/-- The statement at a path from `s`; the empty path leads to `s` itself. -/
def Stmt.at? (s : Stmt) : Path → Option Stmt
  | [] => some s
  | i :: p => s.parts[i]?.bind fun t => t.at? p

def stmtAt? (stmts : List Stmt) : Path → Option Stmt
  | [] => none
  | i :: p => stmts[i]?.bind fun s => s.at? p

theorem Stmt.at?_cons (s : Stmt) (i : Nat) (p : Path) : s.at? (i :: p) = stmtAt? s.parts (i :: p) := rfl

/-! ## Headings -/

/-- What a loop or a bare block says about itself. -/
structure Heading where
  node : String
  label : String
  isLoop : Bool
  span : Span
  deriving DecidableEq, Repr, Inhabited

def Stmt.heading? : Stmt → Option Heading
  | .bare label _ span => some ⟨"BareBlock", labelText label, false, span⟩
  | .whileLoop label _ _ _ span => some ⟨"WhileLoop", labelText label, true, span⟩
  | .forLoop label _ _ _ _ span => some ⟨"ForLoop", labelText label, true, span⟩
  | .foreachLoop label _ _ _ span => some ⟨"ForeachLoop", labelText label, true, span⟩
  | _ => none

def headingAt? (stmts : List Stmt) (p : Path) : Option Heading := (stmtAt? stmts p).bind Stmt.heading?

namespace Label

def scopeOf (enclosing : List Scope) (id : Nat) (h : Heading) : Scope :=
  ⟨id, h.node, h.label, h.isLoop, enclosing.head?.map (·.id), h.span⟩

/-! ## Walks -/

section Walks

variable (info : UnitInfo) (enclosing : List Scope) (next : Nat)

theorem walkStmts_append (first second : List Stmt) :
    walkStmts info enclosing next (first ++ second) = (do
      let (items, n) ← walkStmts info enclosing next first
      let (more, n') ← walkStmts info enclosing n second
      return (items ++ more, n')) := by
  induction first generalizing next with
  | nil =>
    simp only [List.nil_append, walkStmts]
    cases h : walkStmts info enclosing next second <;> simp [bind, Except.bind, pure, Except.pure, h]
  | cons s rest ih =>
    simp only [List.cons_append, walkStmts, ih, bind_assoc]
    congr
    funext ⟨items, n⟩
    simp only [pure_bind]
    congr
    funext ⟨more, n'⟩
    simp only [List.append_assoc]

theorem walkBlock_eq (b : Block) : walkBlock info enclosing next b = walkStmts info enclosing next b.stmts := by
  cases b <;> simp only [walkBlock, Block.stmts, walkStmts]

theorem walkClauses_eq (clauses : List Clause) :
    walkClauses info enclosing next clauses =
      walkStmts info enclosing next (clauses.flatMap Clause.stmts) := by
  induction clauses generalizing next with
  | nil => simp only [walkClauses, List.flatMap_nil, walkStmts]
  | cons c rest ih =>
    obtain ⟨test, body⟩ := c
    simp only [walkClauses, List.flatMap_cons, walkStmts_append, walkBlock_eq, ih, Clause.stmts]

theorem walkStmt_of_heading {s : Stmt} {h : Heading} (hs : s.heading? = some h) :
    walkStmt info enclosing next s = (do
      let (items, n) ← walkStmts info (scopeOf enclosing next h :: enclosing) (next + 1) s.parts
      return (scopeItem enclosing (scopeOf enclosing next h) :: items, n)) := by
  cases s <;> cases hs
  -- The first part of the header is walked as the first part of the body.
  case forLoop =>
    simp only [walkStmt, Stmt.parts, walkStmts, walkBlock_eq, bind_assoc, pure_bind]
    rfl
  all_goals
    simp only [walkStmt, Stmt.parts, walkBlock_eq]
    rfl

/-- A statement that the walk only passes through on the way to its parts. -/
def isPlain : Stmt → Bool
  | .missing | .expr _ | .block _ | .ifChain .. | .ret .. | .sub .. => true
  | .bare .. | .whileLoop .. | .forLoop .. | .foreachLoop .. | .verb .. | .tailCall .. => false

theorem walkStmt_of_plain {s : Stmt} (hs : isPlain s = true) :
    walkStmt info enclosing next s = walkStmts info enclosing next s.parts := by
  cases s <;> cases hs
  case block => simp only [walkStmt, Stmt.parts, walkBlock_eq]
  case ifChain =>
    simp only [walkStmt, Stmt.parts, walkBlock_eq, walkClauses_eq, walkStmts_append, bind_assoc, pure_bind,
      List.append_assoc]
  all_goals simp only [walkStmt, Stmt.parts, walkStmts]

theorem isPlain_cases (s : Stmt) :
    isPlain s = true ∨ (∃ h, s.heading? = some h) ∨ (∃ kind label span, s = .verb kind label span) ∨
      ∃ callee args reuse span, s = .tailCall callee args reuse span := by
  cases s <;> simp [isPlain, Stmt.heading?]

end Walks

end Label

end KestrelLang
