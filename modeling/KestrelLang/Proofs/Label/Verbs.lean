import Mathlib.Data.List.Forall2
import KestrelLang.Proofs.Code.Landing

/-! # Verbs in the text, in the resolution and in the code

* `Stmt.verbs`, `stmtsVerbs` — the verbs of statements, in the order of the text.
* `walked_stmt`, `walked_stmts`, … — a walk meets exactly the verbs of the text.
* `verbsFrom` — the instructions of verbs with their addresses.
* `Agrees` — an instruction does what the resolution says about a verb.
* `CodeOf.verbs_agree` — the verbs of a unit's code and of its resolution agree, one by one.
* `Marker.Proper` — a marker that a verb can send; all markers in lowered code are of this sort. -/

namespace KestrelLang

open KestrelLang.Label

/-! ## Verbs of the text -/

/-- A verb as it is written: with its label, which is empty if there is none, and its place. -/
structure Written where
  verb : Verb
  label : String
  span : Span
  deriving DecidableEq

mutual

/-- The verbs of a statement, not those of the subs in it. -/
def Stmt.verbs : Stmt → List Written
  | .verb kind label span => [⟨kind, labelText label, span⟩]
  | .bare _ body _ | .whileLoop _ _ _ body _ | .foreachLoop _ _ _ body _ | .block body => body.verbs
  | .forLoop _ init _ _ body _ => init.verbs ++ body.verbs
  | .ifChain _ _ body clauses otherwise _ => body.verbs ++ clausesVerbs clauses ++ otherwise.verbs
  | .missing | .expr _ | .tailCall .. | .ret .. | .sub .. => []

def Block.verbs : Block → List Written
  | .missing => []
  | .mk body _ => stmtsVerbs body

def stmtsVerbs : List Stmt → List Written
  | [] => []
  | s :: rest => s.verbs ++ stmtsVerbs rest

def clausesVerbs : List Clause → List Written
  | [] => []
  | .mk _ body :: rest => body.verbs ++ clausesVerbs rest

end

namespace Label

def verbItems (items : List Item) : List VerbUse :=
  items.filterMap fun
    | .scope _ _ => none
    | .verb v => some v

theorem Resolution.verbs_eq (r : Resolution) : r.verbs = verbItems r.items := rfl

@[simp] theorem verbItems_nil : verbItems [] = [] := rfl

@[simp] theorem verbItems_scope (s : Scope) (around : List String) (items : List Item) :
    verbItems (.scope s around :: items) = verbItems items := rfl

@[simp] theorem verbItems_verb (v : VerbUse) (items : List Item) :
    verbItems (.verb v :: items) = v :: verbItems items := rfl

@[simp] theorem verbItems_append (items items' : List Item) :
    verbItems (items ++ items') = verbItems items ++ verbItems items' :=
  List.filterMap_append ..

def VerbUse.written (v : VerbUse) : Written := ⟨v.verb, v.label, v.span⟩

theorem bind_eq_ok {α β : Type} {x : Except CompileError α} {f : α → Except CompileError β} {b : β} :
    (x >>= f) = .ok b ↔ ∃ a, x = .ok a ∧ f a = .ok b := by
  constructor
  · intro h
    cases x with
    | error e => cases h
    | ok a => exact ⟨a, rfl, h⟩
  · rintro ⟨a, rfl, hf⟩
    exact hf

theorem pure_eq_ok {α : Type} {a b : α} : (pure a : Except CompileError α) = .ok b ↔ b = a :=
  ⟨fun h => (Except.ok.inj h).symm, fun h => h ▸ rfl⟩

theorem classify_eq_ok {info : UnitInfo} {enclosing : List Scope} {verb : Verb} {label : String}
    {span : Span} {v : VerbUse} (h : classify info enclosing verb label span = .ok v) :
    MarkerKind.ofVerb? verb = some v.marker ∧ v.written = ⟨verb, label, span⟩ ∧
      v.isLocal = (boundary? Scope.label Scope.isLoop label enclosing).isSome ∧
      (v.isLocal = false → label ≠ "") := by
  unfold classify at h
  split at h
  · cases h
  · rename_i marker hmarker
    split at h
    · cases h
      exact ⟨hmarker, rfl, by simp [VerbUse.isLocal, *], nofun⟩
    · split at h
      · cases h
      · cases h
        exact ⟨hmarker, rfl, by simp [VerbUse.isLocal, *], fun _ => ‹_›⟩

mutual

theorem walked_stmt {info : UnitInfo} {enclosing : List Scope} {next next' : Nat} {items : List Item}
    (s : Stmt) (h : walkStmt info enclosing next s = .ok (items, next')) :
    (verbItems items).map VerbUse.written = s.verbs := by
  match s with
  | .missing | .expr _ | .ret .. | .sub .. =>
    simp only [walkStmt] at h
    cases h
    simp [Stmt.verbs]
  | .verb kind label span =>
    simp only [walkStmt, bind_eq_ok, pure_eq_ok, Prod.mk.injEq] at h
    obtain ⟨v, hv, rfl, rfl⟩ := h
    simp [Stmt.verbs, (classify_eq_ok hv).2.1]
  | .tailCall .. =>
    simp only [walkStmt] at h
    split at h
    · cases h
      simp [Stmt.verbs]
    · cases h
  | .bare _ body _ | .whileLoop _ _ _ body _ | .foreachLoop _ _ _ body _ =>
    simp only [walkStmt, bind_eq_ok, pure_eq_ok, Prod.mk.injEq, Prod.exists] at h
    obtain ⟨inside, n, hinside, rfl, rfl⟩ := h
    simpa [scopeItem, Stmt.verbs] using walked_block body hinside
  | .forLoop _ init _ _ body _ =>
    simp only [walkStmt, bind_eq_ok, pure_eq_ok, Prod.mk.injEq, Prod.exists] at h
    obtain ⟨first, n, hfirst, inside, n', hinside, rfl, rfl⟩ := h
    simp [scopeItem, Stmt.verbs, walked_stmt init hfirst, walked_block body hinside]
  | .block body =>
    simp only [walkStmt] at h
    simpa [Stmt.verbs] using walked_block body h
  | .ifChain _ _ body clauses otherwise _ =>
    simp only [walkStmt, bind_eq_ok, pure_eq_ok, Prod.mk.injEq, Prod.exists] at h
    obtain ⟨first, n₁, hfirst, more, n₂, hmore, last, n₃, hlast, rfl, rfl⟩ := h
    simp [Stmt.verbs, walked_block body hfirst, walked_clauses clauses hmore,
      walked_block otherwise hlast]

theorem walked_block {info : UnitInfo} {enclosing : List Scope} {next next' : Nat}
    {items : List Item} (body : Block) (h : walkBlock info enclosing next body = .ok (items, next')) :
    (verbItems items).map VerbUse.written = body.verbs := by
  match body with
  | .missing =>
    simp only [walkBlock] at h
    cases h
    simp [Block.verbs]
  | .mk stmts _ =>
    simp only [walkBlock] at h
    simpa [Block.verbs] using walked_stmts stmts h

theorem walked_stmts {info : UnitInfo} {enclosing : List Scope} {next next' : Nat}
    {items : List Item} (stmts : List Stmt)
    (h : walkStmts info enclosing next stmts = .ok (items, next')) :
    (verbItems items).map VerbUse.written = stmtsVerbs stmts := by
  match stmts with
  | [] =>
    simp only [walkStmts] at h
    cases h
    simp [stmtsVerbs]
  | s :: rest =>
    simp only [walkStmts, bind_eq_ok, pure_eq_ok, Prod.mk.injEq, Prod.exists] at h
    obtain ⟨first, n₁, hfirst, more, n₂, hmore, rfl, rfl⟩ := h
    simp [stmtsVerbs, walked_stmt s hfirst, walked_stmts rest hmore]

theorem walked_clauses {info : UnitInfo} {enclosing : List Scope} {next next' : Nat}
    {items : List Item} (clauses : List Clause)
    (h : walkClauses info enclosing next clauses = .ok (items, next')) :
    (verbItems items).map VerbUse.written = clausesVerbs clauses := by
  match clauses with
  | [] =>
    simp only [walkClauses] at h
    cases h
    simp [clausesVerbs]
  | .mk _ body :: rest =>
    simp only [walkClauses, bind_eq_ok, pure_eq_ok, Prod.mk.injEq, Prod.exists] at h
    obtain ⟨first, n₁, hfirst, more, n₂, hmore, rfl, rfl⟩ := h
    simp [clausesVerbs, walked_block body hfirst, walked_clauses rest hmore]

end

end Label

namespace Code

/-! ## Verbs of the code -/

def isVerb : Operation CodeUnit → Bool
  | .jump _ | .signal _ => true
  | _ => false

/-- The instructions of verbs in a stretch of code that stands at `pos`, with their addresses. -/
def verbsFrom (pos : Nat) : Instructions → List (Nat × Instruction)
  | [] => []
  | i :: rest => if isVerb i.op then (pos, i) :: verbsFrom (pos + 1) rest else verbsFrom (pos + 1) rest

@[simp] theorem verbsFrom_nil (pos : Nat) : verbsFrom pos [] = [] := rfl

@[simp] theorem verbsFrom_append (pos : Nat) (first second : Instructions) :
    verbsFrom pos (first ++ second) = verbsFrom pos first ++ verbsFrom (pos + first.length) second := by
  induction first generalizing pos with
  | nil => simp
  | cons i rest ih =>
    have hpos : pos + 1 + rest.length = pos + (rest.length + 1) := by omega
    simp only [List.cons_append, verbsFrom, ih, List.length_cons, hpos]
    split <;> rfl

theorem verbsFrom_quiet {code : Instructions} (h : ∀ i ∈ code, isVerb i.op = false) (pos : Nat) :
    verbsFrom pos code = [] := by
  induction code generalizing pos with
  | nil => rfl
  | cons i rest ih =>
    obtain ⟨hi, hrest⟩ := List.forall_mem_cons.mp h
    simp [verbsFrom, hi, ih hrest]

theorem verbsFrom_skip {i : Instruction} (h : isVerb i.op = false) (pos : Nat) (rest : Instructions) :
    verbsFrom pos (i :: rest) = verbsFrom (pos + 1) rest := by
  simp [verbsFrom, h]

theorem ExprOperation.quiet {landing : JumpTarget} {calls : Bool} {op : Operation CodeUnit}
    (h : ExprOperation landing calls op) : isVerb op = false := by
  cases op with
  | jump target => exact h.elim
  | signal marker => exact h.elim
  | _ => rfl

section Quiet

variable {c : Context} {p : Spot} {code : Instructions} {b b' : Build} {pos : Nat}

theorem verbsFrom_lowerExpr {e : Expr} (h : lowerExpr c p e b = .ok (code, b')) :
    verbsFrom pos code = [] :=
  verbsFrom_quiet (fun i hi => (operations_lowerExpr e h i hi).quiet) pos

theorem verbsFrom_lowerExprs {es : List Expr} (h : lowerExprs c p es b = .ok (code, b')) :
    verbsFrom pos code = [] :=
  verbsFrom_quiet (fun i hi => (operations_lowerExprs es h i hi).quiet) pos

theorem verbsFrom_lowerOptional {e : Expr} {last : Operation CodeUnit}
    (h : lowerOptional c p e last b = .ok (code, b')) (hlast : isVerb last = false) :
    verbsFrom pos code = [] := by
  obtain ⟨rfl, rfl, rfl⟩ | ⟨-, value, h₁, rfl⟩ := lowerOptional_eq_ok h
  · rfl
  · simp [verbsFrom_lowerExpr h₁, verbsFrom_skip (i := bare last) hlast]

theorem verbsFrom_lowerInit {init : Stmt} (h : lowerInit c p init b = .ok (code, b')) :
    verbsFrom pos code = [] := by
  obtain ⟨rfl, rfl, rfl⟩ | ⟨e, value, rfl, h₁, rfl⟩ := lowerInit_eq_ok h
  · rfl
  · rw [verbsFrom_append, verbsFrom_lowerExpr h₁]
    rfl

theorem verbsFrom_onlyIf {q : Bool} {i : Instruction} (h : isVerb i.op = false) :
    verbsFrom pos (if q then [i] else []) = [] := by
  cases q <;> simp [verbsFrom_skip h]

end Quiet

/-! ## Agreement -/

/-- The instruction of a verb with the given marker and label, inside the scopes `around`. -/
def verbOperation (origin : String) (around : List OpenScope) (marker : MarkerKind) (label : String)
    (span : Span) : Operation CodeUnit :=
  match boundary? OpenScope.label OpenScope.isLoop label around with
  | some o => .jump (o.targets.of marker)
  | none => .signal ⟨marker, label, span, origin⟩

theorem verbInstr_eq (c : Context) (marker : MarkerKind) (label : String) (span : Span) :
    verbInstr c marker label span = placed (verbOperation c.origin c.enclosing marker label span) span := by
  unfold verbInstr verbOperation
  cases boundary? OpenScope.label OpenScope.isLoop label c.enclosing <;> rfl

/-- The instruction at an address does what the resolution says about the verb: a local verb jumps to
    a continuation of the scope it aims at, any other one sends a marker for its label. -/
structure Agrees (origin : String) (sites : Nat → Option Site) (entry : Nat × Instruction)
    (v : VerbUse) : Prop where
  marked : MarkerKind.ofVerb? v.verb = some v.marker
  placed : ∃ s, sites entry.1 = some s ∧
    v.isLocal = (boundary? OpenScope.label OpenScope.isLoop v.label s.around).isSome ∧
    entry.2 = ⟨verbOperation origin s.around v.marker v.label v.span, v.span⟩
  labeled : v.isLocal = false → v.label ≠ ""

/-- A scope of the code and a scope of the resolution have the same label and are of the same sort. -/
def SameScope (o : OpenScope) (s : Scope) : Prop := o.label = s.label ∧ o.isLoop = s.isLoop

theorem isSome_find? {α β : Type} {R : α → β → Prop} {f : α → Bool} {g : β → Bool} {xs : List α}
    {ys : List β} (h : List.Forall₂ R xs ys) (hfg : ∀ x y, R x y → f x = g y) :
    (xs.find? f).isSome = (ys.find? g).isSome := by
  induction h with
  | nil => rfl
  | cons hxy _ ih =>
    simp only [List.find?_cons, hfg _ _ hxy]
    split
    · rfl
    · exact ih

theorem isSome_boundary? {os : List OpenScope} {ss : List Scope} (h : List.Forall₂ SameScope os ss)
    (label : String) :
    (boundary? OpenScope.label OpenScope.isLoop label os).isSome =
      (boundary? Scope.label Scope.isLoop label ss).isSome := by
  unfold boundary?
  split
  · exact isSome_find? h fun o s hos => hos.2
  · exact isSome_find? h fun o s hos => by rw [hos.1]

abbrev VerbsAgree (origin : String) (sites : Nat → Option Site) (pos : Nat) (code : Instructions)
    (items : List Item) : Prop :=
  List.Forall₂ (Agrees origin sites) (verbsFrom pos code) (verbItems items)

theorem quiet_dispatchPoint (label : Option Name) (k : Continuations) (onward : JumpTarget)
    (span : Span) : isVerb (dispatchPoint label k onward span).op = false := rfl

theorem quiet_negation (negate : Bool) : ∀ i ∈ negation negate, isVerb i.op = false := by
  cases negate <;> simp [negation, onlyIf, isVerb, bare]

theorem sameScopes_enter {c : Context} {enclosing : List Scope}
    (h : List.Forall₂ SameScope c.enclosing enclosing) (label : Option Name) (isLoop : Bool)
    (k : Continuations) (next : Nat) (node : String) (span : Span) :
    List.Forall₂ SameScope (c.enter label isLoop k).enclosing
      (openScope enclosing next node label isLoop span :: enclosing) :=
  .cons ⟨rfl, rfl⟩ h

mutual

/-- The verbs in the code of a statement agree with those that a walk meets. -/
theorem verbs_lowerStmt {c : Context} {p : Spot} {code : Instructions} {b b' : Build}
    {sites : Nat → Option Site} {info : UnitInfo} {enclosing : List Scope} {next next' : Nat}
    {items : List Item} (s : Stmt) (h : lowerStmt c p s b = .ok (code, b'))
    (hwalk : walkStmt info enclosing next s = .ok (items, next'))
    (hsites : LiesAt sites p.ip (stmtSites c p s))
    (hscopes : List.Forall₂ SameScope c.enclosing enclosing) :
    VerbsAgree c.origin sites p.ip code items := by
  match s with
  | .missing =>
    simp only [lowerStmt, Lower.pure_eq_ok] at h
    obtain ⟨rfl, rfl⟩ := h
    simp only [walkStmt] at hwalk
    cases hwalk
    exact .nil
  | .expr e =>
    simp only [lowerStmt, Lower.bind_eq_ok, Lower.pure_eq_ok] at h
    obtain ⟨value, b₁, h₁, rfl, rfl⟩ := h
    simp only [walkStmt] at hwalk
    cases hwalk
    have hpop : isVerb (bare (if c.isSub then .pop else .popResult)).op = false := by
      cases c.isSub <;> rfl
    simp only [VerbsAgree, verbsFrom_append, verbsFrom_lowerExpr h₁, verbsFrom_skip hpop]
    exact .nil
  | .block body =>
    simp only [lowerStmt] at h
    simp only [walkStmt] at hwalk
    simp only [stmtSites] at hsites
    exact verbs_lowerBlock body h hwalk hsites hscopes
  | .verb kind label span =>
    simp only [walkStmt, Label.bind_eq_ok, Label.pure_eq_ok, Prod.mk.injEq] at hwalk
    obtain ⟨v, hv, rfl, rfl⟩ := hwalk
    obtain ⟨hmarker, hwritten, hlocal, hlabeled⟩ := classify_eq_ok hv
    obtain ⟨rfl, hlabel, rfl⟩ : v.verb = kind ∧ v.label = labelText label ∧ v.span = span := by
      simpa [VerbUse.written] using hwritten
    simp only [lowerStmt, hmarker, Lower.pure_eq_ok, ← hlabel] at h
    obtain ⟨rfl, rfl⟩ := h
    simp only [stmtSites, along_cons, along_nil, and_true] at hsites
    have hverb : isVerb (verbInstr c v.marker v.label v.span).op = true := by
      unfold verbInstr
      split <;> rfl
    simp only [VerbsAgree, verbsFrom, hverb, if_true, verbItems_verb, verbItems_nil]
    refine .cons ⟨hmarker, ⟨_, hsites, ?_, verbInstr_eq ..⟩, hlabel ▸ hlabeled⟩ .nil
    -- The resolution looked through its own scopes; they have the labels of those of the code.
    rw [hlocal, ← hlabel]
    exact (isSome_boundary? hscopes v.label).symm
  | .tailCall callee args reuse _ =>
    simp only [walkStmt] at hwalk
    split at hwalk
    · cases hwalk
      cases reuse <;> simp only [lowerStmt, Lower.bind_eq_ok, Lower.pure_eq_ok, if_true, if_false,
        Bool.false_eq_true] at h
      · obtain ⟨first, b₁, h₁, second, b₂, h₂, rfl, rfl⟩ := h
        simp only [VerbsAgree, verbsFrom_append, verbsFrom_lowerExpr h₁, verbsFrom_lowerExprs h₂]
        exact .nil
      · obtain ⟨first, b₁, h₁, second, b₂, ⟨rfl, rfl⟩, rfl, rfl⟩ := h
        simp only [VerbsAgree, verbsFrom_append, verbsFrom_lowerExpr h₁]
        exact .nil
    · cases hwalk
  | .ret argument _ =>
    simp only [lowerStmt, Lower.bind_eq_ok, Lower.pure_eq_ok] at h
    obtain ⟨value, b₁, h₁, rfl, rfl⟩ := h
    simp only [walkStmt] at hwalk
    cases hwalk
    simp only [VerbsAgree, verbsFrom_append, verbsFrom_lowerExpr h₁]
    exact .nil
  | .sub name params body _ =>
    simp only [lowerStmt, Lower.bind_eq_ok, Lower.pure_eq_ok] at h
    obtain ⟨_, b₁, _, unit, b₂, _, _, b₃, _, rfl, rfl⟩ := h
    simp only [walkStmt] at hwalk
    cases hwalk
    exact .nil
  | .bare label body span =>
    simp only [lowerStmt, Lower.bind_eq_ok, Lower.pure_eq_ok] at h
    obtain ⟨inside, b₁, h₁, rfl, rfl⟩ := h
    simp only [walkStmt, Label.bind_eq_ok, Label.pure_eq_ok, Prod.mk.injEq, Prod.exists] at hwalk
    obtain ⟨items', n, hinside, rfl, rfl⟩ := hwalk
    simp only [stmtSites, List.cons_append, List.nil_append, along_append, along_cons, along_nil,
      length_scopeSites, and_true] at hsites
    have hscope := verbs_lowerScope body h₁ hinside hsites.2.1 (sameScopes_enter hscopes ..) rfl
    simp only [VerbsAgree, verbsFrom_append, verbsFrom_skip (i := bare .enterScope) rfl,
      verbsFrom_skip (i := bare .exitScope) rfl, verbsFrom_nil, List.nil_append, List.append_nil,
      List.length_cons, List.length_nil, scopeItem, verbItems_scope]
    exact hscope
  | .whileLoop label test negate body span =>
    simp only [lowerStmt, Lower.bind_eq_ok, Lower.pure_eq_ok] at h
    obtain ⟨first, b₁, h₁, inside, b₂, h₂, rfl, rfl⟩ := h
    simp only [walkStmt, Label.bind_eq_ok, Label.pure_eq_ok, Prod.mk.injEq, Prod.exists] at hwalk
    obtain ⟨items', n, hinside, rfl, rfl⟩ := hwalk
    simp only [stmtSites, along_append, along_cons, along_nil, List.length_append,
      length_exprSites, length_siteIf, length_scopeSites, List.length_cons, List.length_nil,
      Nat.reduceAdd, and_true, ← Nat.add_assoc] at hsites
    obtain ⟨⟨⟨-, hbody⟩, -⟩, -⟩ := hsites
    have hscope := verbs_lowerScope body h₂ hinside (ip_whileRound_inner p test negate ▸ hbody)
      (sameScopes_enter hscopes ..) rfl
    rw [VerbsAgree, ip_whileRound_inner] at hscope
    simp only [VerbsAgree, verbsFrom_append, verbsFrom_lowerExpr h₁, length_lowerExpr _ h₁,
      verbsFrom_quiet (quiet_negation negate), length_negation, verbsFrom_onlyIf (quiet_dispatchPoint ..),
      verbsFrom, isVerb, bare, Bool.false_eq_true, if_false, List.length_append, List.length_cons,
      List.length_nil, List.nil_append, List.append_nil, scopeItem, verbItems_scope, ← Nat.add_assoc]
    exact hscope
  | .forLoop label init test step body span =>
    simp only [lowerStmt_forLoop, Lower.bind_eq_ok, Lower.pure_eq_ok] at h
    obtain ⟨first, b₁, h₁, second, b₂, h₂, inside, b₃, h₃, third, b₄, h₄, rfl, rfl⟩ := h
    simp only [walkStmt, Label.bind_eq_ok, Label.pure_eq_ok, Prod.mk.injEq, Prod.exists] at hwalk
    obtain ⟨items₁, n, hinit, items₂, n', hinside, rfl, rfl⟩ := hwalk
    -- The first part of the header is an expression, in which a walk meets nothing.
    obtain rfl : items₁ = [] := by
      obtain ⟨rfl, -, -⟩ | ⟨e, value, rfl, -, -⟩ := lowerInit_eq_ok h₁
      all_goals
        simp only [walkStmt] at hinit
        cases hinit
        rfl
    simp only [stmtSites, along_append, along_cons, along_nil, List.length_append,
      length_initSites, length_optionalSites, length_siteIf, length_scopeSites, List.length_cons,
      List.length_nil, Nat.reduceAdd, and_true, ← Nat.add_assoc] at hsites
    obtain ⟨⟨⟨⟨⟨⟨-, hbody⟩, -⟩, -⟩, -⟩, -⟩, -⟩ := hsites
    have hscope := verbs_lowerScope body h₃ hinside (ip_forRound_inner p init test ▸ hbody)
      (sameScopes_enter hscopes ..) rfl
    rw [VerbsAgree, ip_forRound_inner] at hscope
    simp only [VerbsAgree, verbsFrom_append, verbsFrom_lowerInit h₁, length_lowerInit h₁,
      verbsFrom_lowerOptional h₂ rfl, length_lowerOptional h₂, verbsFrom_lowerOptional h₄ rfl,
      verbsFrom_onlyIf (quiet_dispatchPoint ..), verbsFrom, isVerb, bare, Bool.false_eq_true, if_false,
      List.length_append, List.length_cons, List.length_nil, List.nil_append, List.append_nil,
      scopeItem, ← Nat.add_assoc]
    exact hscope
  | .foreachLoop label item iterable body span =>
    simp only [lowerStmt, Lower.bind_eq_ok, Lower.pure_eq_ok] at h
    obtain ⟨first, b₁, h₁, inside, b₂, h₂, rfl, rfl⟩ := h
    simp only [walkStmt, Label.bind_eq_ok, Label.pure_eq_ok, Prod.mk.injEq, Prod.exists] at hwalk
    obtain ⟨items', n, hinside, rfl, rfl⟩ := hwalk
    simp only [stmtSites, along_append, along_cons, along_nil, List.length_append,
      length_exprSites, length_scopeSites, List.length_cons, List.length_nil, Nat.reduceAdd, and_true,
      ← Nat.add_assoc] at hsites
    have hscope := verbs_lowerScope (p := (foreachNext p iterable).inner 3) body h₂ hinside hsites.1.2
      (sameScopes_enter hscopes ..) rfl
    simp only [VerbsAgree, verbsFrom_append, verbsFrom_lowerExpr h₁, length_lowerExpr _ h₁, verbsFrom,
      isVerb, bare, placed, Bool.false_eq_true, if_false, List.length_append, List.length_cons,
      List.length_nil, List.nil_append, List.append_nil, scopeItem, verbItems_scope, ← Nat.add_assoc]
    exact hscope
  | .ifChain test negate body clauses otherwise span =>
    simp only [lowerStmt, Lower.bind_eq_ok, Lower.pure_eq_ok] at h
    obtain ⟨first, b₁, h₁, inside, b₂, h₂, more, b₃, h₃, last, b₄, h₄, rfl, rfl⟩ := h
    simp only [walkStmt, Label.bind_eq_ok, Label.pure_eq_ok, Prod.mk.injEq, Prod.exists] at hwalk
    obtain ⟨items₁, n₁, hw₁, items₂, n₂, hw₂, items₃, n₃, hw₃, rfl, rfl⟩ := hwalk
    simp only [Spot.skip, ← Nat.add_assoc] at h₂ h₃ h₄
    simp only [stmtSites, Spot.skip, along_append, along_cons, along_nil,
      List.length_append, length_exprSites, length_siteIf, length_blockSites, length_clausesSites,
      List.length_cons, List.length_nil, Nat.reduceAdd, and_true, ← Nat.add_assoc] at hsites
    obtain ⟨⟨⟨⟨-, hbody⟩, -⟩, hmore⟩, hlast⟩ := hsites
    have hfirst := verbs_lowerBlock body h₂ hw₁ hbody hscopes
    have hsecond := verbs_lowerClauses clauses h₃ hw₂ hmore hscopes
    have hthird := verbs_lowerBlock otherwise h₄ hw₃ hlast hscopes
    simp only [VerbsAgree, verbsFrom_append, verbsFrom_lowerExpr h₁, length_lowerExpr _ h₁,
      verbsFrom_quiet (quiet_negation negate), length_negation, length_lowerBlock _ h₂,
      length_lowerClauses _ h₃, verbsFrom, isVerb, bare, Bool.false_eq_true, if_false,
      List.length_append, List.length_cons, List.length_nil, List.nil_append, List.append_nil,
      verbItems_append, ← Nat.add_assoc]
    exact List.rel_append (List.rel_append hfirst hsecond) hthird

theorem verbs_lowerBlock {c : Context} {p : Spot} {code : Instructions} {b b' : Build}
    {sites : Nat → Option Site} {info : UnitInfo} {enclosing : List Scope} {next next' : Nat}
    {items : List Item} (body : Block) (h : lowerBlock c p body b = .ok (code, b'))
    (hwalk : walkBlock info enclosing next body = .ok (items, next'))
    (hsites : LiesAt sites p.ip (blockSites c p body))
    (hscopes : List.Forall₂ SameScope c.enclosing enclosing) :
    VerbsAgree c.origin sites p.ip code items := by
  match body with
  | .missing =>
    simp only [lowerBlock, Lower.pure_eq_ok] at h
    obtain ⟨rfl, rfl⟩ := h
    simp only [walkBlock] at hwalk
    cases hwalk
    exact .nil
  | .mk stmts _ =>
    simp only [lowerBlock, Lower.bind_eq_ok, Lower.pure_eq_ok] at h
    obtain ⟨inside, b₁, h₁, rfl, rfl⟩ := h
    simp only [walkBlock] at hwalk
    simp only [blockSites, List.cons_append, List.nil_append, along_append, along_cons, along_nil,
      length_stmtsSites, and_true] at hsites
    have hstmts := verbs_lowerStmts (p := p.inner 1) stmts h₁ hwalk hsites.2.1 hscopes
    simp only [VerbsAgree, verbsFrom_append, verbsFrom, isVerb, bare, Bool.false_eq_true, if_false,
      List.length_cons, List.length_nil, List.nil_append, List.append_nil]
    exact hstmts

theorem verbs_lowerStmts {c : Context} {p : Spot} {code : Instructions} {b b' : Build}
    {sites : Nat → Option Site} {info : UnitInfo} {enclosing : List Scope} {next next' : Nat}
    {items : List Item} (stmts : List Stmt) (h : lowerStmts c p stmts b = .ok (code, b'))
    (hwalk : walkStmts info enclosing next stmts = .ok (items, next'))
    (hsites : LiesAt sites p.ip (stmtsSites c p stmts))
    (hscopes : List.Forall₂ SameScope c.enclosing enclosing) :
    VerbsAgree c.origin sites p.ip code items := by
  match stmts with
  | [] =>
    simp only [lowerStmts, Lower.pure_eq_ok] at h
    obtain ⟨rfl, rfl⟩ := h
    simp only [walkStmts] at hwalk
    cases hwalk
    exact .nil
  | s :: rest =>
    simp only [lowerStmts, Lower.bind_eq_ok, Lower.pure_eq_ok] at h
    obtain ⟨first, b₁, h₁, more, b₂, h₂, rfl, rfl⟩ := h
    simp only [walkStmts, Label.bind_eq_ok, Label.pure_eq_ok, Prod.mk.injEq, Prod.exists] at hwalk
    obtain ⟨items₁, n₁, hw₁, items₂, n₂, hw₂, rfl, rfl⟩ := hwalk
    simp only [stmtsSites, along_append, length_stmtSites] at hsites
    simp only [VerbsAgree, verbsFrom_append, length_lowerStmt _ h₁, verbItems_append]
    exact List.rel_append (verbs_lowerStmt s h₁ hw₁ hsites.1 hscopes)
      (verbs_lowerStmts (p := p.skip s.size) rest h₂ hw₂ hsites.2 hscopes)

theorem verbs_lowerEach {c : Context} {point : Instruction} {site : Site} {p : Spot}
    {code : Instructions} {b b' : Build} {sites : Nat → Option Site} {info : UnitInfo}
    {enclosing : List Scope} {next next' : Nat} {items : List Item} (stmts : List Stmt)
    (h : lowerEach c point p stmts b = .ok (code, b'))
    (hwalk : walkStmts info enclosing next stmts = .ok (items, next'))
    (hsites : LiesAt sites p.ip (eachSites c site p stmts))
    (hscopes : List.Forall₂ SameScope c.enclosing enclosing) (hpoint : isVerb point.op = false) :
    VerbsAgree c.origin sites p.ip code items := by
  match stmts with
  | [] =>
    simp only [lowerEach, Lower.pure_eq_ok] at h
    obtain ⟨rfl, rfl⟩ := h
    simp only [walkStmts] at hwalk
    cases hwalk
    exact .nil
  | s :: rest =>
    simp only [lowerEach, Lower.bind_eq_ok, Lower.pure_eq_ok] at h
    obtain ⟨first, b₁, h₁, more, b₂, h₂, rfl, rfl⟩ := h
    simp only [walkStmts, Label.bind_eq_ok, Label.pure_eq_ok, Prod.mk.injEq, Prod.exists] at hwalk
    obtain ⟨items₁, n₁, hw₁, items₂, n₂, hw₂, rfl, rfl⟩ := hwalk
    simp only [eachSites, along_append, along_cons, along_nil, List.length_append, length_stmtSites,
      List.length_cons, List.length_nil, and_true, ← Nat.add_assoc] at hsites
    simp only [VerbsAgree, verbsFrom_append, verbsFrom_skip hpoint, verbsFrom_nil, List.append_nil,
      List.length_append, List.length_cons, List.length_nil, length_lowerStmt _ h₁, verbItems_append,
      ← Nat.add_assoc]
    -- Another landing leaves the scopes of the context as they are.
    have hfirst := verbs_lowerStmt (c := c.landingAt (p.skip s.size).target) s h₁ hw₁ hsites.1.1
      hscopes
    have hmore := verbs_lowerEach (p := p.skip (s.size + 1)) rest h₂ hw₂ hsites.2 hscopes hpoint
    exact List.rel_append hfirst hmore

theorem verbs_lowerScope {c : Context} {mode : DispatchMode} {point : Instruction} {site : Site}
    {p : Spot} {code : Instructions} {b b' : Build} {sites : Nat → Option Site} {info : UnitInfo}
    {enclosing : List Scope} {next next' : Nat} {items : List Item} (body : Block)
    (h : lowerScope c mode point p body b = .ok (code, b'))
    (hwalk : walkBlock info enclosing next body = .ok (items, next'))
    (hsites : LiesAt sites p.ip (scopeSites c mode site p body))
    (hscopes : List.Forall₂ SameScope c.enclosing enclosing) (hpoint : isVerb point.op = false) :
    VerbsAgree c.origin sites p.ip code items := by
  -- Without statements there is only the dispatch point, which is no verb.
  have halone : VerbsAgree c.origin sites p.ip [point] [] := by
    simp only [VerbsAgree, verbsFrom_skip hpoint]
    exact .nil
  match body with
  | .missing =>
    simp only [lowerScope, Lower.pure_eq_ok] at h
    obtain ⟨rfl, rfl⟩ := h
    simp only [walkBlock] at hwalk
    cases hwalk
    cases mode with
    | none => exact .nil
    | loopEnd | perStatement => exact halone
  | .mk stmts _ =>
    simp only [walkBlock] at hwalk
    cases mode with
    | none =>
      simp only [lowerScope] at h
      exact verbs_lowerStmts stmts h hwalk hsites hscopes
    | loopEnd =>
      simp only [lowerScope, Lower.bind_eq_ok, Lower.pure_eq_ok] at h
      obtain ⟨inside, b₁, h₁, rfl, rfl⟩ := h
      simp only [scopeSites, along_append] at hsites
      simp only [VerbsAgree, verbsFrom_append, verbsFrom_skip hpoint, verbsFrom_nil, List.append_nil]
      exact verbs_lowerStmts (c := c.landingAt (p.skip (stmtsSize stmts)).target) stmts h₁ hwalk
        hsites.1 hscopes
    | perStatement =>
      simp only [lowerScope] at h
      cases hs : stmts.isEmpty with
      | true =>
        obtain rfl := List.isEmpty_iff.mp hs
        simp only [hs, if_true, Lower.pure_eq_ok] at h
        obtain ⟨rfl, rfl⟩ := h
        simp only [walkStmts] at hwalk
        cases hwalk
        exact halone
      | false =>
        simp only [hs, Bool.false_eq_true, if_false] at h
        simp only [scopeSites, hs, Bool.false_eq_true, if_false] at hsites
        exact verbs_lowerEach stmts h hwalk hsites hscopes hpoint

theorem verbs_lowerClauses {c : Context} {stop : Nat} {p : Spot} {code : Instructions}
    {b b' : Build} {sites : Nat → Option Site} {info : UnitInfo} {enclosing : List Scope}
    {next next' : Nat} {items : List Item} (clauses : List Clause)
    (h : lowerClauses c stop p clauses b = .ok (code, b'))
    (hwalk : walkClauses info enclosing next clauses = .ok (items, next'))
    (hsites : LiesAt sites p.ip (clausesSites c p clauses))
    (hscopes : List.Forall₂ SameScope c.enclosing enclosing) :
    VerbsAgree c.origin sites p.ip code items := by
  match clauses with
  | [] =>
    simp only [lowerClauses, Lower.pure_eq_ok] at h
    obtain ⟨rfl, rfl⟩ := h
    simp only [walkClauses] at hwalk
    cases hwalk
    exact .nil
  | .mk test body :: rest =>
    simp only [lowerClauses, Lower.bind_eq_ok, Lower.pure_eq_ok] at h
    obtain ⟨first, b₁, h₁, inside, b₂, h₂, more, b₃, h₃, rfl, rfl⟩ := h
    simp only [walkClauses, Label.bind_eq_ok, Label.pure_eq_ok, Prod.mk.injEq, Prod.exists] at hwalk
    obtain ⟨items₁, n₁, hw₁, items₂, n₂, hw₂, rfl, rfl⟩ := hwalk
    simp only [Spot.skip, ← Nat.add_assoc] at h₂ h₃
    simp only [clausesSites, Spot.skip, along_append, along_cons, along_nil,
      List.length_append, length_exprSites, length_blockSites, List.length_cons, List.length_nil,
      Nat.reduceAdd, and_true, ← Nat.add_assoc] at hsites
    obtain ⟨⟨⟨-, hbody⟩, -⟩, hmore⟩ := hsites
    have hfirst := verbs_lowerBlock body h₂ hw₁ hbody hscopes
    have hsecond := verbs_lowerClauses rest h₃ hw₂ hmore hscopes
    simp only [VerbsAgree, verbsFrom_append, verbsFrom_lowerExpr h₁, length_lowerExpr _ h₁,
      length_lowerBlock _ h₂, verbsFrom, isVerb, bare, Bool.false_eq_true, if_false,
      List.length_append, List.length_cons, List.length_nil, List.nil_append, List.append_nil,
      verbItems_append, ← Nat.add_assoc]
    exact List.rel_append hfirst hsecond

end

/-! ## Units -/

/-- The resolution of a unit holds what a walk through its text meets. -/
theorem CodeOf.walked {body : List Stmt} {u : CodeUnit} (h : CodeOf body u) :
    ∃ items n, walkStmts ⟨u.isSub, u.origin⟩ [] 0 body = .ok (items, n) ∧
      u.resolution.verbs = verbItems items := by
  have hresolved := h.resolved
  simp only [resolve, Label.bind_eq_ok, Label.pure_eq_ok, Prod.exists] at hresolved
  obtain ⟨items, n, hwalk, hresolution⟩ := hresolved
  exact ⟨items, n, hwalk, by rw [hresolution, Resolution.verbs_eq]⟩

/-- The verbs in the code of a unit are those of its resolution, in the same order, and agree with
    them. -/
theorem CodeOf.verbs_agree {body : List Stmt} {u : CodeUnit} (h : CodeOf body u) :
    List.Forall₂ (Agrees u.origin ((unitSites u.isSub u.origin body)[·]?))
      (verbsFrom 0 u.code.toList) u.resolution.verbs := by
  obtain ⟨code, b, b', hcode, hu⟩ := h.lowered
  obtain ⟨items, n, hwalk, hverbs⟩ := h.walked
  have hsites := liesAt_self (unitSites u.isSub u.origin body)
  generalize (fun ip : Nat => (unitSites u.isSub u.origin body)[ip]?) = sites at hsites ⊢
  simp only [unitSites, along_append] at hsites
  have hend : ∀ i ∈ unitEnd u.isSub, isVerb i.op = false := by
    cases u.isSub <;> simp [unitEnd, isVerb, bare]
  rw [hu, hverbs, List.toList_toArray, verbsFrom_append, verbsFrom_quiet hend, List.append_nil]
  exact verbs_lowerStmts (p := .start) body hcode hwalk hsites.1 .nil

theorem CodeOf.written_verbs {body : List Stmt} {u : CodeUnit} (h : CodeOf body u) :
    u.resolution.verbs.map VerbUse.written = stmtsVerbs body := by
  obtain ⟨items, n, hwalk, hverbs⟩ := h.walked
  rw [hverbs]
  exact walked_stmts body hwalk

theorem mem_verbsFrom {code : Instructions} {i : Instruction} {k : Nat} (hi : code[k]? = some i)
    (hverb : isVerb i.op = true) (pos : Nat) : (pos + k, i) ∈ verbsFrom pos code := by
  induction code generalizing k pos with
  | nil => simp at hi
  | cons j rest ih =>
    cases k with
    | zero =>
      obtain rfl : j = i := by simpa using hi
      simp [verbsFrom, hverb]
    | succ k =>
      have hrest := ih (k := k) (by simpa using hi) (pos + 1)
      rw [Nat.add_right_comm, Nat.add_assoc] at hrest
      unfold verbsFrom
      split
      · exact List.mem_cons_of_mem _ hrest
      · exact hrest

theorem getElem?_of_mem_verbsFrom {code : Instructions} {pos : Nat} {entry : Nat × Instruction}
    (h : entry ∈ verbsFrom pos code) : ∃ k, entry.1 = pos + k ∧ code[k]? = some entry.2 := by
  induction code generalizing pos with
  | nil => cases h
  | cons i rest ih =>
    have hlater : entry ∈ verbsFrom (pos + 1) rest →
        ∃ k, entry.1 = pos + k ∧ (i :: rest)[k]? = some entry.2 := by
      intro hrest
      obtain ⟨k, hk, hi⟩ := ih hrest
      exact ⟨k + 1, by omega, by simpa using hi⟩
    unfold verbsFrom at h
    split at h
    · obtain rfl | hrest := List.mem_cons.mp h
      · exact ⟨0, rfl, rfl⟩
      · exact hlater hrest
    · exact hlater h

theorem exists_of_forall₂ {α β : Type} {R : α → β → Prop} {xs : List α} {ys : List β} {x : α}
    (h : List.Forall₂ R xs ys) (hx : x ∈ xs) : ∃ y ∈ ys, R x y := by
  induction h with
  | nil => cases hx
  | cons hxy _ ih =>
    obtain rfl | hx := List.mem_cons.mp hx
    · exact ⟨_, List.mem_cons_self, hxy⟩
    · obtain ⟨y, hy, hxy⟩ := ih hx
      exact ⟨y, List.mem_cons_of_mem _ hy, hxy⟩

/-- Every instruction of a verb belongs to a verb of the resolution and agrees with it. -/
theorem CodeOf.agrees {body : List Stmt} {u : CodeUnit} {ip : Nat} {i : Instruction}
    (h : CodeOf body u) (hi : u.code[ip]? = some i) (hverb : isVerb i.op = true) :
    ∃ v ∈ u.resolution.verbs,
      Agrees u.origin ((unitSites u.isSub u.origin body)[·]?) (ip, i) v := by
  have hmem : (0 + ip, i) ∈ verbsFrom 0 u.code.toList := mem_verbsFrom (by simpa using hi) hverb 0
  rw [Nat.zero_add] at hmem
  exact exists_of_forall₂ h.verbs_agree hmem

end Code

/-- A marker that a verb can send: it names a label, and its kind is that of a verb. -/
structure Marker.Proper (m : Marker) : Prop where
  labeled : m.target ≠ ""
  known : ∃ verb, MarkerKind.ofVerb? verb = some m.kind

namespace Code

theorem Lowered.proper {u : CodeUnit} {ip : Nat} {i : Instruction} {marker : Marker} (hu : Lowered u)
    (hi : u.code[ip]? = some i) (hop : i.op = .signal marker) : marker.Proper := by
  obtain ⟨body, hbody⟩ := hu
  obtain ⟨v, -, hmarked, ⟨s, -, hlocal, hinstr⟩, hlabeled⟩ := hbody.agrees hi (by rw [hop]; rfl)
  have hmarker : .signal marker = verbOperation u.origin s.around v.marker v.label v.span :=
    hop.symm.trans (congrArg Instr.op hinstr)
  unfold verbOperation at hmarker
  split at hmarker
  · cases hmarker
  · rename_i hnone
    cases hmarker
    rw [hnone] at hlocal
    exact ⟨hlabeled hlocal, v.verb, hmarked⟩

end Code

end KestrelLang
