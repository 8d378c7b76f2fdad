import KestrelLang.Proofs.Grammar.TreeProperties

/-! # Trees that texts have

The type of trees is wider than the language: an assignment may have any expression on its left, a loop header any
statement in its first part, a verb any spelling. A parser makes none of these.

* `Expr.Regular`, `Stmt.Regular`, … — trees of the language.
* `regular_of_parseModule` — the tree of a text is regular. -/

namespace KestrelLang

/-! ## Regular trees -/

def Stmt.isInit : Stmt → Bool
  | .missing | .expr _ => true
  | _ => false

mutual

def Expr.Regular : Expr → Prop
  | .missing | .undefined _ | .int .. | .float .. | .str .. | .ident .. => True
  | .array elements _ => exprsRegular elements
  | .index object index _ => object.Regular ∧ index.Regular
  | .unary _ operand _ => operand.Regular
  | .binary _ left right _ => left.Regular ∧ right.Regular
  | .assign op left right _ => op.takes left = true ∧ left.Regular ∧ right.Regular
  | .call callee args _ => callee.Regular ∧ exprsRegular args
  | .closure _ body _ => body.Regular

def exprsRegular : List Expr → Prop
  | [] => True
  | e :: es => e.Regular ∧ exprsRegular es

def Stmt.Regular : Stmt → Prop
  | .missing => True
  | .expr e | .ret e _ => e.Regular
  | .block body | .bare _ body _ => body.Regular
  | .whileLoop _ e _ body _ | .foreachLoop _ _ e body _ => e.Regular ∧ body.Regular
  | .forLoop _ init test step body _ =>
    init.isInit = true ∧ init.Regular ∧ test.Regular ∧ step.Regular ∧ body.Regular
  | .ifChain test _ body clauses otherwise _ =>
    test.Regular ∧ body.Regular ∧ clausesRegular clauses ∧ otherwise.Regular
  | .verb kind label _ => kind.takes (labelText label) = true
  | .tailCall callee args reuse _ => (reuse = true → args = []) ∧ callee.Regular ∧ exprsRegular args
  | .sub _ _ body _ => body.Regular

def Block.Regular : Block → Prop
  | .missing => True
  | .mk body _ => stmtsRegular body

def stmtsRegular : List Stmt → Prop
  | [] => True
  | s :: rest => s.Regular ∧ stmtsRegular rest

def clausesRegular : List Clause → Prop
  | [] => True
  | .mk test body :: rest => test.Regular ∧ body.Regular ∧ clausesRegular rest

end

theorem stmtsRegular_iff {stmts : List Stmt} : stmtsRegular stmts ↔ ∀ s ∈ stmts, s.Regular := by
  induction stmts with
  | nil => simp [stmtsRegular]
  | cons s rest ih => simp [stmtsRegular, ih]

theorem Block.Regular.stmts {b : Block} (h : b.Regular) : stmtsRegular b.stmts := by
  cases b with
  | missing => trivial
  | mk body span => exact h

/-! ## Texts -/

open KestrelLang.Parser

theorem Parser.regular_initOf {e : Expr} (h : e.Regular) : (initOf e).isInit = true ∧ (initOf e).Regular := by
  cases e <;> exact ⟨rfl, h⟩

def TreeProperty.regular : TreeProperty where
  expr := Expr.Regular
  exprs := exprsRegular
  stmt := Stmt.Regular
  block := Block.Regular
  stmts := stmtsRegular
  clauses := clausesRegular
  missing := trivial
  undefined _ := trivial
  int _ := trivial
  float _ := trivial
  str _ := trivial
  ident _ := trivial
  array _ helements := helements
  index _ hobject hindex := ⟨hobject, hindex⟩
  unary _ hoperand := hoperand
  binary _ hleft hright := ⟨hleft, hright⟩
  assign htakes _ hleft hright := ⟨htakes, hleft, hright⟩
  call _ hcallee hargs := ⟨hcallee, hargs⟩
  closure _ hbody := hbody
  noExprs := trivial
  consExprs he hes := ⟨he, hes⟩
  plain := id
  ret _ he := he
  bare _ hbody := hbody
  whileLoop _ htest hbody := ⟨htest, hbody⟩
  forLoop _ hinit htest hstep hbody :=
    ⟨(regular_initOf hinit).1, (regular_initOf hinit).2, htest, hstep, hbody⟩
  foreachLoop _ hiterable hbody := ⟨hiterable, hbody⟩
  ifChain _ htest hbody hmore hotherwise := ⟨htest, hbody, hmore, hotherwise⟩
  verb htakes _ := htakes
  tailCall hreuse _ hcallee hargs := ⟨hreuse, hcallee, hargs⟩
  sub _ hbody := hbody
  noBlock := trivial
  body := id
  noStmts := trivial
  consStmts hs hrest := ⟨hs, hrest⟩
  noClauses := trivial
  consClauses htest hbody hrest := ⟨htest, hbody, hrest⟩

namespace Parser

theorem regular_of_parseModule {origin : String} {text : List Char} {m : Module}
    (h : parseModule origin text = .ok m) : stmtsRegular m.body :=
  TreeProperty.regular.of_parseModule h

end Parser

end KestrelLang
