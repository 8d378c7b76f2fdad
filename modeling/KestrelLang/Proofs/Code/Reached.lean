import KestrelLang.Proofs.Code.Definitions

/-! # What a lowering comes to

The lowering of a tree stops at its first fault, and it does not look at the arguments of a tail call that passes the
current ones on. What it does come to it treats in the same way wherever it stands.

* `Module.reached` — the definitions of a module, but for those that no lowering looks at.
* `Module.reached_eq_definitions` — in the tree of a text those are all definitions.
* `Module.finished` — the same definitions, in the order in which their lowerings end.
* `Known` — verbs that the language has; `known_of_resolve` finds them in every unit with a resolution.
* `Sequential` — a property of a lowering and of the definitions that it comes to one after another, kept when lowerings
  are put together.
* `Sequential.lowerExpr`, `Sequential.lowerStmt`, … — all lowerings have such a property.
* `Compositional` — such a property to which the order of the definitions is all one. -/

namespace KestrelLang

open KestrelLang.Label

/-! ## Definitions that are looked at -/

mutual

def Expr.reached : Expr → List Definition
  | .missing | .undefined _ | .int .. | .float .. | .str .. | .ident .. => []
  | .array elements _ => exprsReached elements
  | .index object index _ => object.reached ++ index.reached
  | .unary _ operand _ => operand.reached
  | .binary _ left right _ | .assign _ left right _ => left.reached ++ right.reached
  | .call callee args _ => callee.reached ++ exprsReached args
  | .closure params body span => ⟨none, params, body.stmts, span⟩ :: body.reached

def exprsReached : List Expr → List Definition
  | [] => []
  | e :: es => e.reached ++ exprsReached es

/-- The definitions in a statement, and inside them, that its lowering comes to. A tail call that passes the current
    arguments on has no use for others. -/
def Stmt.reached : Stmt → List Definition
  | .missing | .verb .. => []
  | .expr e | .ret e _ => e.reached
  | .block body | .bare _ body _ => body.reached
  | .whileLoop _ e _ body _ | .foreachLoop _ _ e body _ => e.reached ++ body.reached
  | .forLoop _ init test step body _ => init.reached ++ (test.reached ++ (step.reached ++ body.reached))
  | .ifChain test _ body clauses otherwise _ =>
    test.reached ++ (body.reached ++ (clausesReached clauses ++ otherwise.reached))
  | .tailCall callee args reuse _ => callee.reached ++ if reuse then [] else exprsReached args
  | .sub name params body span => ⟨some name.text, params, body.stmts, span⟩ :: body.reached

def Block.reached : Block → List Definition
  | .missing => []
  | .mk body _ => stmtsReached body

def stmtsReached : List Stmt → List Definition
  | [] => []
  | s :: rest => s.reached ++ stmtsReached rest

def clausesReached : List Clause → List Definition
  | [] => []
  | .mk test body :: rest => test.reached ++ (body.reached ++ clausesReached rest)

end

def Module.reached (m : Module) : List Definition := stmtsReached m.body

mutual

theorem Expr.reached_eq (e : Expr) (h : e.Regular) : e.reached = e.definitions := by
  match e with
  | .missing | .undefined _ | .int .. | .float .. | .str .. | .ident .. => simp only [Expr.reached, Expr.definitions]
  | .array elements _ => simp only [Expr.reached, Expr.definitions, exprsReached_eq elements h]
  | .index object index _ => simp only [Expr.reached, Expr.definitions, object.reached_eq h.1, index.reached_eq h.2]
  | .unary _ operand _ => simp only [Expr.reached, Expr.definitions, operand.reached_eq h]
  | .binary _ left right _ => simp only [Expr.reached, Expr.definitions, left.reached_eq h.1, right.reached_eq h.2]
  | .assign _ left right _ => simp only [Expr.reached, Expr.definitions, left.reached_eq h.2.1, right.reached_eq h.2.2]
  | .call callee args _ => simp only [Expr.reached, Expr.definitions, callee.reached_eq h.1, exprsReached_eq args h.2]
  | .closure _ body _ => simp only [Expr.reached, Expr.definitions, body.reached_eq h]

theorem exprsReached_eq (es : List Expr) (h : exprsRegular es) : exprsReached es = exprsDefinitions es := by
  match es with
  | [] => simp only [exprsReached, exprsDefinitions]
  | e :: es => simp only [exprsReached, exprsDefinitions, e.reached_eq h.1, exprsReached_eq es h.2]

theorem Stmt.reached_eq (s : Stmt) (h : s.Regular) : s.reached = s.definitions := by
  match s with
  | .missing | .verb .. => simp only [Stmt.reached, Stmt.definitions]
  | .expr e | .ret e _ => simp only [Stmt.reached, Stmt.definitions, e.reached_eq h]
  | .block body | .bare _ body _ | .sub _ _ body _ => simp only [Stmt.reached, Stmt.definitions, body.reached_eq h]
  | .whileLoop _ e _ body _ | .foreachLoop _ _ e body _ =>
    simp only [Stmt.reached, Stmt.definitions, e.reached_eq h.1, body.reached_eq h.2]
  | .forLoop _ init test step body _ =>
    obtain ⟨-, hinit, htest, hstep, hbody⟩ := h
    simp only [Stmt.reached, Stmt.definitions, init.reached_eq hinit, test.reached_eq htest, step.reached_eq hstep,
      body.reached_eq hbody]
  | .ifChain test _ body clauses otherwise _ =>
    obtain ⟨htest, hbody, hclauses, hotherwise⟩ := h
    simp only [Stmt.reached, Stmt.definitions, test.reached_eq htest, body.reached_eq hbody,
      clausesReached_eq clauses hclauses, otherwise.reached_eq hotherwise]
  | .tailCall callee args reuse _ =>
    obtain ⟨hargs, hcallee, hregular⟩ := h
    -- A text that passes the current arguments on has no others.
    cases reuse with
    | false => simp [Stmt.reached, Stmt.definitions, callee.reached_eq hcallee, exprsReached_eq args hregular]
    | true => simp [Stmt.reached, Stmt.definitions, callee.reached_eq hcallee, hargs rfl, exprsDefinitions]

theorem Block.reached_eq (b : Block) (h : b.Regular) : b.reached = b.definitions := by
  match b with
  | .missing => simp only [Block.reached, Block.definitions]
  | .mk body _ => simp only [Block.reached, Block.definitions, stmtsReached_eq body h]

theorem stmtsReached_eq (stmts : List Stmt) (h : stmtsRegular stmts) : stmtsReached stmts = stmtsDefinitions stmts := by
  match stmts with
  | [] => simp only [stmtsReached, stmtsDefinitions]
  | s :: rest => simp only [stmtsReached, stmtsDefinitions, s.reached_eq h.1, stmtsReached_eq rest h.2]

theorem clausesReached_eq (clauses : List Clause) (h : clausesRegular clauses) :
    clausesReached clauses = clausesDefinitions clauses := by
  match clauses with
  | [] => simp only [clausesReached, clausesDefinitions]
  | .mk test body :: rest =>
    obtain ⟨htest, hbody, hrest⟩ := h
    simp only [clausesReached, clausesDefinitions, test.reached_eq htest, body.reached_eq hbody,
      clausesReached_eq rest hrest]

end

theorem Module.reached_eq_definitions {name : String} {text : List Char} {m : Module}
    (h : Parser.parseModule name text = .ok m) : m.reached = m.definitions :=
  stmtsReached_eq m.body (Parser.regular_of_parseModule h)

/-! ## Definitions in the order of lowering -/

mutual

/-- The definitions that the lowering of an expression comes to, in the order in which it has done with them: a closure
    after those inside of it. -/
def Expr.finished : Expr → List Definition
  | .missing | .undefined _ | .int .. | .float .. | .str .. | .ident .. => []
  | .array elements _ => exprsFinished elements
  | .index object index _ => object.finished ++ index.finished
  | .unary _ operand _ => operand.finished
  | .binary _ left right _ | .assign _ left right _ => left.finished ++ right.finished
  | .call callee args _ => callee.finished ++ exprsFinished args
  | .closure params body span => body.finished ++ [⟨none, params, body.stmts, span⟩]

def exprsFinished : List Expr → List Definition
  | [] => []
  | e :: es => e.finished ++ exprsFinished es

/-- The definitions that the lowering of a statement comes to, in the order in which it has done with them. The step of
    a loop is lowered after the body. -/
def Stmt.finished : Stmt → List Definition
  | .missing | .verb .. => []
  | .expr e | .ret e _ => e.finished
  | .block body | .bare _ body _ => body.finished
  | .whileLoop _ e _ body _ | .foreachLoop _ _ e body _ => e.finished ++ body.finished
  | .forLoop _ init test step body _ => init.finished ++ (test.finished ++ (body.finished ++ step.finished))
  | .ifChain test _ body clauses otherwise _ =>
    test.finished ++ (body.finished ++ (clausesFinished clauses ++ otherwise.finished))
  | .tailCall callee args reuse _ => callee.finished ++ if reuse then [] else exprsFinished args
  | .sub name params body span => body.finished ++ [⟨some name.text, params, body.stmts, span⟩]

def Block.finished : Block → List Definition
  | .missing => []
  | .mk body _ => stmtsFinished body

def stmtsFinished : List Stmt → List Definition
  | [] => []
  | s :: rest => s.finished ++ stmtsFinished rest

def clausesFinished : List Clause → List Definition
  | [] => []
  | .mk test body :: rest => test.finished ++ (body.finished ++ clausesFinished rest)

end

/-- The definitions of a module in the order in which their lowerings end. -/
def Module.finished (m : Module) : List Definition := stmtsFinished m.body

mutual

theorem Expr.finished_perm (e : Expr) : e.finished.Perm e.reached := by
  match e with
  | .missing | .undefined _ | .int .. | .float .. | .str .. | .ident .. =>
    rw [Expr.finished, Expr.reached]
  | .array elements _ =>
    rw [Expr.finished, Expr.reached]
    exact exprsFinished_perm elements
  | .index left right _ | .binary _ left right _ | .assign _ left right _ =>
    rw [Expr.finished, Expr.reached]
    exact left.finished_perm.append right.finished_perm
  | .unary _ operand _ =>
    rw [Expr.finished, Expr.reached]
    exact operand.finished_perm
  | .call callee args _ =>
    rw [Expr.finished, Expr.reached]
    exact callee.finished_perm.append (exprsFinished_perm args)
  | .closure _ body _ =>
    rw [Expr.finished, Expr.reached]
    exact (List.perm_append_singleton _ _).trans (body.finished_perm.cons _)

theorem exprsFinished_perm (es : List Expr) : (exprsFinished es).Perm (exprsReached es) := by
  match es with
  | [] => rw [exprsFinished, exprsReached]
  | e :: es =>
    rw [exprsFinished, exprsReached]
    exact e.finished_perm.append (exprsFinished_perm es)

theorem Stmt.finished_perm (s : Stmt) : s.finished.Perm s.reached := by
  match s with
  | .missing | .verb .. => rw [Stmt.finished, Stmt.reached]
  | .expr e | .ret e _ =>
    rw [Stmt.finished, Stmt.reached]
    exact e.finished_perm
  | .block body | .bare _ body _ =>
    rw [Stmt.finished, Stmt.reached]
    exact body.finished_perm
  | .whileLoop _ e _ body _ | .foreachLoop _ _ e body _ =>
    rw [Stmt.finished, Stmt.reached]
    exact e.finished_perm.append body.finished_perm
  | .forLoop _ init test step body _ =>
    rw [Stmt.finished, Stmt.reached]
    -- The step stands before the body in the text and is lowered after it.
    have hround := List.perm_append_comm.trans (step.finished_perm.append body.finished_perm)
    exact init.finished_perm.append (test.finished_perm.append hround)
  | .ifChain test _ body clauses otherwise _ =>
    rw [Stmt.finished, Stmt.reached]
    exact test.finished_perm.append (body.finished_perm.append
      ((clausesFinished_perm clauses).append otherwise.finished_perm))
  | .tailCall callee args reuse _ =>
    rw [Stmt.finished, Stmt.reached]
    refine callee.finished_perm.append ?_
    cases reuse with
    | false => exact exprsFinished_perm args
    | true => exact .nil
  | .sub _ _ body _ =>
    rw [Stmt.finished, Stmt.reached]
    exact (List.perm_append_singleton _ _).trans (body.finished_perm.cons _)

theorem Block.finished_perm (b : Block) : b.finished.Perm b.reached := by
  match b with
  | .missing => rw [Block.finished, Block.reached]
  | .mk body _ =>
    rw [Block.finished, Block.reached]
    exact stmtsFinished_perm body

theorem stmtsFinished_perm (stmts : List Stmt) : (stmtsFinished stmts).Perm (stmtsReached stmts) := by
  match stmts with
  | [] => rw [stmtsFinished, stmtsReached]
  | s :: rest =>
    rw [stmtsFinished, stmtsReached]
    exact s.finished_perm.append (stmtsFinished_perm rest)

theorem clausesFinished_perm (clauses : List Clause) : (clausesFinished clauses).Perm (clausesReached clauses) := by
  match clauses with
  | [] => rw [clausesFinished, clausesReached]
  | .mk test body :: rest =>
    rw [clausesFinished, clausesReached]
    exact test.finished_perm.append (body.finished_perm.append (clausesFinished_perm rest))

end

/-! ## Verbs of the language -/

namespace Label

def Known (ws : List Written) : Prop := ∀ w ∈ ws, ∃ marker, MarkerKind.ofVerb? w.verb = some marker

@[simp] theorem known_append {ws ws' : List Written} : Known (ws ++ ws') ↔ Known ws ∧ Known ws' :=
  List.forall_mem_append

theorem known_of_resolve {info : UnitInfo} {body : List Stmt} {r : Resolution} (h : resolve info body = .ok r) :
    Known (stmtsVerbs body) := by
  simp only [resolve, bind_eq_ok, pure_eq_ok, Prod.exists] at h
  obtain ⟨items, n, hwalk, -⟩ := h
  intro w hw
  rw [← walked_stmts body hwalk] at hw
  obtain ⟨v, hv, rfl⟩ := List.mem_map.mp hw
  obtain ⟨item, hitem, hpick⟩ := List.mem_filterMap.mp hv
  obtain ⟨tags, rfl, htags⟩ := exists_tagging hwalk
  obtain ⟨⟨p, item⟩, hmem, rfl⟩ := List.mem_map.mp hitem
  cases item with
  | scope s labels => cases hpick
  | verb v' =>
    cases hpick
    obtain ⟨kind, label, span, -, hclass⟩ := htags.fits p _ hmem
    obtain ⟨hmarker, hwritten, -⟩ := classify_eq_ok hclass
    rw [hwritten]
    exact ⟨_, hmarker⟩

end Label

namespace Code

/-! ## Properties of lowerings and definitions -/

def isLate : CompileCause → Bool
  | .declaresNoName | .invalidTarget _ | .expectedExpression _ => true
  | .outsideLoop _ | .tailCallOutsideSub _ | .duplicateSub _ | .unknownVerb _ | .custom .. => false

/-- A property of lowerings in a text of the given name and of the definitions that they come to one after another. The
    single steps have it, and it is kept when they are put together. -/
structure Sequential (origin : String) (P : List Definition → {α : Type} → Lower α → Prop) : Prop where
  pure : ∀ {α : Type} (a : α), P [] (Pure.pure a : Lower α)
  bind : ∀ {α β : Type} {ds ds' : List Definition} {x : Lower α} {f : α → Lower β}, P ds x →
    (∀ {b a b'}, x b = .ok (a, b') → P ds' (f a)) → P (ds ++ ds') (x >>= f)
  unsupported : ∀ {α : Type} (ds : List Definition) {cause : CompileCause} (span : Span), isLate cause = true →
    P ds (Code.unsupported cause span : Lower α)
  openUnit : ∀ {c : Context} (body : List Stmt), c.origin = origin → P [] (Code.openUnit c body)
  closure : ∀ {c : Context} {p : Spot} {params : List Name} {body : Block} {span : Span} {ds : List Definition},
    c.origin = origin → P ds (Code.lowerBody (.ofUnit true origin) "" params span body) →
      P (ds ++ [⟨none, params, body.stmts, span⟩]) (Code.lowerExpr c p (.closure params body span))
  sub : ∀ {c : Context} {p : Spot} {name : Name} {params : List Name} {body : Block} {span : Span}
    {ds : List Definition}, c.origin = origin →
      P ds (Code.lowerBody (.ofUnit true origin) name.text params span body) →
        P (ds ++ [⟨some name.text, params, body.stmts, span⟩]) (Code.lowerStmt c p (.sub name params body span))

namespace Sequential

variable {origin : String} {P : List Definition → {α : Type} → Lower α → Prop}

theorem map (h : Sequential origin P) {α β : Type} {ds : List Definition} {x : Lower α} (hx : P ds x)
    (f : α → β) : P ds (x >>= fun a => Pure.pure (f a)) :=
  List.append_nil ds ▸ h.bind hx fun _ => h.pure _

theorem lowerOptional (h : Sequential origin P) {c : Context} {p : Spot} {e : Expr} {last : Operation CodeUnit}
    (he : P e.finished (Code.lowerExpr c p e)) : P e.finished (Code.lowerOptional c p e last) := by
  unfold Code.lowerOptional
  by_cases hmissing : e = .missing
  · subst hmissing
    rw [Expr.finished]
    exact h.pure _
  · rw [isMissing_eq_false hmissing]
    exact h.map he _

mutual

theorem lowerExpr (h : Sequential origin P) {c : Context} {p : Spot} (hc : c.origin = origin) (e : Expr) :
    P e.finished (Code.lowerExpr c p e) := by
  match e with
  | .missing | .undefined _ | .int .. | .float .. | .str .. | .ident .. =>
    rw [Code.lowerExpr, Expr.finished]
    exact h.pure _
  | .array elements _ =>
    rw [Code.lowerExpr, Expr.finished]
    exact h.map (h.lowerExprs hc elements) _
  | .index object index _ =>
    rw [Code.lowerExpr, Expr.finished]
    exact h.bind (h.lowerExpr hc object) fun _ => h.map (h.lowerExpr hc index) _
  | .unary _ operand _ =>
    rw [Code.lowerExpr, Expr.finished]
    exact h.map (h.lowerExpr hc operand) _
  | .binary op left right _ =>
    rw [Expr.finished]
    -- The operators have three equations between them, all with both sides in this order.
    cases op <;> simp only [Code.lowerExpr]
    all_goals exact h.bind (h.lowerExpr hc left) fun _ => h.map (h.lowerExpr hc right) _
  | .assign op (.ident name place) right _ =>
    rw [Expr.finished, Expr.finished, List.nil_append]
    cases op <;> simp only [Code.lowerExpr]
    all_goals exact h.map (h.lowerExpr hc right) _
  | .assign op (.index object index place) right _ =>
    rw [Expr.finished, Expr.finished, List.append_assoc]
    cases op <;> simp only [Code.lowerExpr]
    case declare => exact h.unsupported _ _ rfl
    all_goals
      exact h.bind (h.lowerExpr hc object) fun _ => h.bind (h.lowerExpr hc index) fun _ =>
        h.map (h.lowerExpr hc right) _
  | .assign op .missing right _ | .assign op (.str ..) right _ | .assign op (.int ..) right _
  | .assign op (.float ..) right _ | .assign op (.undefined _) right _ | .assign op (.array ..) right _
  | .assign op (.unary ..) right _ | .assign op (.binary ..) right _ | .assign op (.assign ..) right _
  | .assign op (.call ..) right _ | .assign op (.closure ..) right _ =>
    cases op <;> simp only [Code.lowerExpr]
    all_goals exact h.unsupported _ _ rfl
  | .call callee args _ =>
    rw [Code.lowerExpr, Expr.finished]
    exact h.bind (h.lowerExpr hc callee) fun _ => h.map (h.lowerExprs hc args) _
  | .closure params body _ =>
    rw [Expr.finished]
    exact h.closure hc (h.lowerBody rfl body)

theorem lowerExprs (h : Sequential origin P) {c : Context} {p : Spot} (hc : c.origin = origin) (es : List Expr) :
    P (exprsFinished es) (Code.lowerExprs c p es) := by
  match es with
  | [] =>
    rw [Code.lowerExprs, exprsFinished]
    exact h.pure _
  | e :: es =>
    rw [Code.lowerExprs, exprsFinished]
    exact h.bind (h.lowerExpr hc e) fun _ => h.map (h.lowerExprs hc es) _

theorem lowerInit (h : Sequential origin P) {c : Context} {p : Spot} (hc : c.origin = origin) (init : Stmt) :
    P init.finished (Code.lowerInit c p init) := by
  match init with
  | .missing =>
    rw [Code.lowerInit, Stmt.finished]
    exact h.pure _
  | .expr e =>
    rw [Code.lowerInit, Stmt.finished]
    exact h.map (h.lowerExpr hc e) _
  | .block _ | .bare .. | .whileLoop .. | .forLoop .. | .foreachLoop .. | .ifChain .. | .verb ..
  | .tailCall .. | .ret .. | .sub .. =>
    simp only [Code.lowerInit]
    exact h.unsupported _ _ rfl

theorem lowerStmt (h : Sequential origin P) {c : Context} {p : Spot} (hc : c.origin = origin) (s : Stmt)
    (hs : Known s.verbs) : P s.finished (Code.lowerStmt c p s) := by
  match s with
  | .missing =>
    rw [Code.lowerStmt, Stmt.finished]
    exact h.pure _
  | .expr e =>
    rw [Code.lowerStmt, Stmt.finished]
    exact h.map (h.lowerExpr hc e) _
  | .block body =>
    rw [Stmt.verbs] at hs
    rw [Code.lowerStmt, Stmt.finished]
    exact h.lowerBlock hc body hs
  | .bare label body _ =>
    rw [Stmt.verbs] at hs
    rw [Code.lowerStmt, Stmt.finished]
    exact h.map (h.lowerScope (by exact hc) body hs) _
  | .whileLoop label test negate body _ =>
    rw [Stmt.verbs] at hs
    rw [Code.lowerStmt, Stmt.finished]
    refine h.bind (h.lowerExpr ?_ test) fun _ => h.map (h.lowerScope (by exact hc) body hs) _
    split <;> exact hc
  | .forLoop label init test step body _ =>
    rw [Stmt.verbs, known_append] at hs
    -- The header may have a landing of its own, but it is part of the same text.
    have hheader : (forHeader c p label init test step body).origin = origin := by
      unfold forHeader headerContext
      split <;> exact hc
    rw [lowerStmt_forLoop, Stmt.finished]
    exact h.bind (h.lowerInit hheader init) fun _ =>
      h.bind (h.lowerOptional (h.lowerExpr hheader test)) fun _ =>
      h.bind (h.lowerScope (by exact hc) body hs.2) fun _ =>
      h.map (h.lowerOptional (h.lowerExpr hheader step)) _
  | .foreachLoop label item iterable body _ =>
    rw [Stmt.verbs] at hs
    rw [Code.lowerStmt, Stmt.finished]
    exact h.bind (h.lowerExpr hc iterable) fun _ => h.map (h.lowerScope (by exact hc) body hs) _
  | .ifChain test negate body clauses otherwise _ =>
    simp only [Stmt.verbs, known_append] at hs
    obtain ⟨⟨hbody, hclauses⟩, hotherwise⟩ := hs
    rw [Code.lowerStmt, Stmt.finished]
    exact h.bind (h.lowerExpr hc test) fun _ => h.bind (h.lowerBlock hc body hbody) fun _ =>
      h.bind (h.lowerClauses hc clauses hclauses) fun _ => h.map (h.lowerBlock hc otherwise hotherwise) _
  | .verb kind label span =>
    rw [Stmt.verbs] at hs
    obtain ⟨marker, hmarker⟩ : ∃ marker, MarkerKind.ofVerb? kind = some marker := hs _ List.mem_cons_self
    rw [Code.lowerStmt, Stmt.finished, hmarker]
    exact h.pure _
  | .tailCall callee args reuse _ =>
    rw [Code.lowerStmt, Stmt.finished]
    refine h.bind (h.lowerExpr hc callee) fun _ => ?_
    cases reuse with
    | false => exact h.map (h.lowerExprs hc args) _
    | true => exact h.map (h.pure _) _
  | .ret argument _ =>
    rw [Code.lowerStmt, Stmt.finished]
    exact h.map (h.lowerExpr hc argument) _
  | .sub name params body _ =>
    rw [Stmt.finished]
    exact h.sub hc (h.lowerBody rfl body)

theorem lowerBlock (h : Sequential origin P) {c : Context} {p : Spot} (hc : c.origin = origin) (body : Block)
    (hs : Known body.verbs) : P body.finished (Code.lowerBlock c p body) := by
  match body with
  | .missing =>
    rw [Code.lowerBlock, Block.finished]
    exact h.pure _
  | .mk stmts _ =>
    rw [Block.verbs] at hs
    rw [Code.lowerBlock, Block.finished]
    exact h.map (h.lowerStmts hc stmts hs) _

theorem lowerScope (h : Sequential origin P) {c : Context} {mode : DispatchMode} {point : Instruction} {p : Spot}
    (hc : c.origin = origin) (body : Block) (hs : Known body.verbs) :
    P body.finished (Code.lowerScope c mode point p body) := by
  match body with
  | .missing =>
    rw [Code.lowerScope, Block.finished]
    exact h.pure _
  | .mk stmts _ =>
    rw [Block.verbs] at hs
    rw [Block.finished]
    cases mode with
    | none => simpa only [Code.lowerScope] using h.lowerStmts hc stmts hs
    | loopEnd =>
      simp only [Code.lowerScope]
      exact h.map (h.lowerStmts (by exact hc) stmts hs) _
    | perStatement =>
      simp only [Code.lowerScope]
      cases hempty : stmts.isEmpty with
      | true =>
        obtain rfl := List.isEmpty_iff.mp hempty
        rw [stmtsFinished]
        exact h.pure _
      | false => exact h.lowerEach hc stmts hs

theorem lowerStmts (h : Sequential origin P) {c : Context} {p : Spot} (hc : c.origin = origin) (stmts : List Stmt)
    (hs : Known (stmtsVerbs stmts)) : P (stmtsFinished stmts) (Code.lowerStmts c p stmts) := by
  match stmts with
  | [] =>
    rw [Code.lowerStmts, stmtsFinished]
    exact h.pure _
  | s :: rest =>
    rw [stmtsVerbs, known_append] at hs
    rw [Code.lowerStmts, stmtsFinished]
    exact h.bind (h.lowerStmt hc s hs.1) fun _ => h.map (h.lowerStmts hc rest hs.2) _

theorem lowerEach (h : Sequential origin P) {c : Context} {point : Instruction} {p : Spot} (hc : c.origin = origin)
    (stmts : List Stmt) (hs : Known (stmtsVerbs stmts)) :
    P (stmtsFinished stmts) (Code.lowerEach c point p stmts) := by
  match stmts with
  | [] =>
    rw [Code.lowerEach, stmtsFinished]
    exact h.pure _
  | s :: rest =>
    rw [stmtsVerbs, known_append] at hs
    rw [Code.lowerEach, stmtsFinished]
    exact h.bind (h.lowerStmt (by exact hc) s hs.1) fun _ => h.map (h.lowerEach hc rest hs.2) _

theorem lowerClauses (h : Sequential origin P) {c : Context} {stop : Nat} {p : Spot} (hc : c.origin = origin)
    (clauses : List Clause) (hs : Known (clausesVerbs clauses)) :
    P (clausesFinished clauses) (Code.lowerClauses c stop p clauses) := by
  match clauses with
  | [] =>
    rw [Code.lowerClauses, clausesFinished]
    exact h.pure _
  | .mk test body :: rest =>
    rw [clausesVerbs, known_append] at hs
    rw [Code.lowerClauses, clausesFinished]
    exact h.bind (h.lowerExpr hc test) fun _ => h.bind (h.lowerBlock hc body hs.1) fun _ =>
      h.map (h.lowerClauses hc rest hs.2) _

theorem lowerBody (h : Sequential origin P) {c : Context} {name : String} {params : List Name} {span : Span}
    (hc : c.origin = origin) (body : Block) : P body.finished (Code.lowerBody c name params span body) := by
  match body with
  | .missing =>
    rw [Code.lowerBody, Block.finished]
    exact h.map (h.openUnit _ hc) _
  | .mk stmts _ =>
    rw [Code.lowerBody, Block.finished]
    -- Once the unit is open, its verbs are known.
    refine h.bind (h.openUnit stmts hc) fun hopen => h.map (h.lowerStmts hc stmts ?_) _
    exact known_of_resolve (openUnit_eq_ok.mp hopen).1

end

theorem lowerMain (h : Sequential origin P) (m : Module) : P m.finished (Code.lowerMain origin m) := by
  unfold Code.lowerMain
  refine h.bind (h.openUnit m.body rfl) fun hopen => h.map (h.lowerStmts rfl m.body ?_) _
  exact known_of_resolve (openUnit_eq_ok.mp hopen).1

end Sequential

/-- A property of lowerings in a text of the given name and of the definitions that they come to in some order. The
    single steps have it, and it is kept when they are put together. -/
structure Compositional (origin : String) (P : List Definition → {α : Type} → Lower α → Prop) : Prop where
  pure : ∀ {α : Type} (a : α), P [] (Pure.pure a : Lower α)
  bind : ∀ {α β : Type} {ds ds' : List Definition} {x : Lower α} {f : α → Lower β}, P ds x →
    (∀ {b a b'}, x b = .ok (a, b') → P ds' (f a)) → P (ds ++ ds') (x >>= f)
  perm : ∀ {α : Type} {ds ds' : List Definition} {x : Lower α}, P ds x → ds'.Perm ds → P ds' x
  unsupported : ∀ {α : Type} (ds : List Definition) {cause : CompileCause} (span : Span), isLate cause = true →
    P ds (Code.unsupported cause span : Lower α)
  openUnit : ∀ {c : Context} (body : List Stmt), c.origin = origin → P [] (Code.openUnit c body)
  closure : ∀ {c : Context} {p : Spot} {params : List Name} {body : Block} {span : Span} {ds : List Definition},
    c.origin = origin → P ds (Code.lowerBody (.ofUnit true origin) "" params span body) →
      P (⟨none, params, body.stmts, span⟩ :: ds) (Code.lowerExpr c p (.closure params body span))
  sub : ∀ {c : Context} {p : Spot} {name : Name} {params : List Name} {body : Block} {span : Span}
    {ds : List Definition}, c.origin = origin →
      P ds (Code.lowerBody (.ofUnit true origin) name.text params span body) →
        P (⟨some name.text, params, body.stmts, span⟩ :: ds) (Code.lowerStmt c p (.sub name params body span))

namespace Compositional

variable {origin : String} {P : List Definition → {α : Type} → Lower α → Prop}

theorem sequential (h : Compositional origin P) : Sequential origin P where
  pure := h.pure
  bind := h.bind
  unsupported := h.unsupported
  openUnit := h.openUnit
  closure hc hbody := h.perm (h.closure hc hbody) (List.perm_append_singleton _ _)
  sub hc hbody := h.perm (h.sub hc hbody) (List.perm_append_singleton _ _)

theorem lowerMain (h : Compositional origin P) (m : Module) : P m.reached (Code.lowerMain origin m) :=
  h.perm (h.sequential.lowerMain m) (stmtsFinished_perm m.body).symm

end Compositional

end Code

end KestrelLang
