import KestrelLang.Proofs.Grammar.TreeProperties

/-! # Trees with places

A parser takes the places in a tree from the tokens that it reads, so every node of the tree of a text stands
somewhere.

* `Expr.Placed`, `Stmt.Placed`, … — trees whose nodes all stand somewhere.
* `placed_of_parseModule` — the tree of a text is one.
* `fair_of_parseTokens` — the errors about the tokens of a text. -/

namespace KestrelLang

mutual

def Expr.Placed : Expr → Prop
  | .missing => True
  | .ident _ s | .str _ s | .int _ s | .float _ s | .undefined s => s.Placed
  | .array elements s => s.Placed ∧ exprsPlaced elements
  | .index object index s => s.Placed ∧ object.Placed ∧ index.Placed
  | .unary _ operand s => s.Placed ∧ operand.Placed
  | .binary _ left right s | .assign _ left right s => s.Placed ∧ left.Placed ∧ right.Placed
  | .call callee args s => s.Placed ∧ callee.Placed ∧ exprsPlaced args
  | .closure _ body s => s.Placed ∧ body.Placed

def exprsPlaced : List Expr → Prop
  | [] => True
  | e :: es => e.Placed ∧ exprsPlaced es

def Stmt.Placed : Stmt → Prop
  | .missing => True
  | .expr e => e.Placed
  | .ret e s => s.Placed ∧ e.Placed
  | .block body => body.Placed
  | .bare _ body s => s.Placed ∧ body.Placed
  | .whileLoop _ e _ body s | .foreachLoop _ _ e body s => s.Placed ∧ e.Placed ∧ body.Placed
  | .forLoop _ init test step body s => s.Placed ∧ init.Placed ∧ test.Placed ∧ step.Placed ∧ body.Placed
  | .ifChain test _ body clauses otherwise s =>
    s.Placed ∧ test.Placed ∧ body.Placed ∧ clausesPlaced clauses ∧ otherwise.Placed
  | .verb _ _ s => s.Placed
  | .tailCall callee args _ s => s.Placed ∧ callee.Placed ∧ exprsPlaced args
  | .sub _ _ body s => s.Placed ∧ body.Placed

def Block.Placed : Block → Prop
  | .missing => True
  | .mk body _ => stmtsPlaced body

def stmtsPlaced : List Stmt → Prop
  | [] => True
  | s :: rest => s.Placed ∧ stmtsPlaced rest

def clausesPlaced : List Clause → Prop
  | [] => True
  | .mk test body :: rest => test.Placed ∧ body.Placed ∧ clausesPlaced rest

end

/-! ## Texts -/

open KestrelLang.Parser

theorem Parser.placed_initOf {e : Expr} (h : e.Placed) : (initOf e).Placed := by
  cases e <;> exact h

/-- All nodes stand somewhere: a node that is made of parts begins at a token. -/
def TreeProperty.placed : TreeProperty where
  expr := Expr.Placed
  exprs := exprsPlaced
  stmt := Stmt.Placed
  block := Block.Placed
  stmts := stmtsPlaced
  clauses := clausesPlaced
  missing := trivial
  undefined := id
  int := id
  float := id
  str := id
  ident := id
  array hspan helements := ⟨hspan, helements⟩
  index hspan hobject hindex := ⟨hspan, hobject, hindex⟩
  unary hspan hoperand := ⟨hspan, hoperand⟩
  binary hspan hleft hright := ⟨hspan, hleft, hright⟩
  assign _ hspan hleft hright := ⟨hspan, hleft, hright⟩
  call hspan hcallee hargs := ⟨hspan, hcallee, hargs⟩
  closure hspan hbody := ⟨hspan, hbody⟩
  noExprs := trivial
  consExprs he hes := ⟨he, hes⟩
  plain := id
  ret hspan he := ⟨hspan, he⟩
  bare hspan hbody := ⟨hspan, hbody⟩
  whileLoop hspan htest hbody := ⟨hspan, htest, hbody⟩
  forLoop hspan hinit htest hstep hbody := ⟨hspan, placed_initOf hinit, htest, hstep, hbody⟩
  foreachLoop hspan hiterable hbody := ⟨hspan, hiterable, hbody⟩
  ifChain hspan htest hbody hmore hotherwise := ⟨hspan, htest, hbody, hmore, hotherwise⟩
  verb _ hspan := hspan
  tailCall _ hspan hcallee hargs := ⟨hspan, hcallee, hargs⟩
  sub hspan hbody := ⟨hspan, hbody⟩
  noBlock := trivial
  body := id
  noStmts := trivial
  consStmts hs hrest := ⟨hs, hrest⟩
  noClauses := trivial
  consClauses htest hbody hrest := ⟨htest, hbody, hrest⟩

namespace Parser

theorem placed_of_parseModule {origin : String} {text : List Char} {m : Module} (h : parseModule origin text = .ok m) :
    stmtsPlaced m.body :=
  TreeProperty.placed.of_parseModule h

theorem fair_of_parseTokens {text : List Char} {l : Lexer.TokenList} {e : ParseError}
    (htokens : Lexer.tokenize text = .ok l) (h : parseTokens l = .error e) : e.cause.Fair := by
  have hkeeps := keeps_stmts (keeps_parsers .placed (Stream.ofTokens l).size) none (scanned_ofTokens htokens)
    (Nat.le_refl _)
  unfold parseTokens at h
  dsimp only at h
  cases hbody : stmts (parsers (Stream.ofTokens l).size) none (Stream.ofTokens l) (Nat.le_refl _) with
  | error e' =>
    rw [hbody] at h hkeeps
    cases h
    exact hkeeps
  | ok p =>
    rw [hbody] at h
    cases h

end Parser

end KestrelLang
