import KestrelLang.Proofs.Label.Verbs
import KestrelLang.Proofs.Meaning.Loops

/-! # The code of a statement does what the statement does

* `count_stmt`, `count_block`, … — a walk counts the scopes of a statement.
* `boundary?_zip` — the code and the resolution aim a verb at the same scope.
* `Activation.Around` — the scopes around a statement, as the code and as the resolution know them.
* `runs_lowerStmt`, `runs_block`, … — the code of a statement does what the statement does. -/

namespace KestrelLang

open KestrelLang.Code KestrelLang.Label

/-! ## Numbers of scopes -/

mutual

theorem count_stmt {info : UnitInfo} {enclosing : List Scope} {n n' : Nat} {items : List Item} (s : Stmt)
    (h : walkStmt info enclosing n s = .ok (items, n')) : n' = n + s.scopeCount := by
  match s with
  | .missing | .expr _ | .ret .. | .sub .. =>
    simp only [walkStmt] at h
    cases h
    simp [Stmt.scopeCount]
  | .verb kind label span =>
    simp only [walkStmt, Label.bind_eq_ok, Label.pure_eq_ok, Prod.mk.injEq] at h
    obtain ⟨v, hv, rfl, rfl⟩ := h
    simp [Stmt.scopeCount]
  | .tailCall .. =>
    simp only [walkStmt] at h
    split at h
    · cases h
      simp [Stmt.scopeCount]
    · cases h
  | .bare _ body _ | .whileLoop _ _ _ body _ | .foreachLoop _ _ _ body _ =>
    simp only [walkStmt, Label.bind_eq_ok, Label.pure_eq_ok, Prod.mk.injEq, Prod.exists] at h
    obtain ⟨inside, n₁, hinside, rfl, rfl⟩ := h
    rw [count_block body hinside, Stmt.scopeCount, Nat.add_assoc]
  | .forLoop _ init _ _ body _ =>
    simp only [walkStmt, Label.bind_eq_ok, Label.pure_eq_ok, Prod.mk.injEq, Prod.exists] at h
    obtain ⟨first, n₁, hfirst, inside, n₂, hinside, rfl, rfl⟩ := h
    rw [count_block body hinside, count_stmt init hfirst, Stmt.scopeCount]
    omega
  | .block body =>
    simp only [walkStmt] at h
    rw [count_block body h, Stmt.scopeCount]
  | .ifChain _ _ body clauses otherwise _ =>
    simp only [walkStmt, Label.bind_eq_ok, Label.pure_eq_ok, Prod.mk.injEq, Prod.exists] at h
    obtain ⟨first, n₁, hfirst, more, n₂, hmore, last, n₃, hlast, rfl, rfl⟩ := h
    rw [count_block otherwise hlast, count_clauses clauses hmore, count_block body hfirst, Stmt.scopeCount]
    omega

theorem count_block {info : UnitInfo} {enclosing : List Scope} {n n' : Nat} {items : List Item} (body : Block)
    (h : walkBlock info enclosing n body = .ok (items, n')) : n' = n + body.scopeCount := by
  match body with
  | .missing =>
    simp only [walkBlock] at h
    cases h
    simp [Block.scopeCount]
  | .mk stmts _ =>
    simp only [walkBlock] at h
    rw [count_stmts stmts h, Block.scopeCount]

theorem count_stmts {info : UnitInfo} {enclosing : List Scope} {n n' : Nat} {items : List Item} (stmts : List Stmt)
    (h : walkStmts info enclosing n stmts = .ok (items, n')) : n' = n + stmtsScopeCount stmts := by
  match stmts with
  | [] =>
    simp only [walkStmts] at h
    cases h
    simp [stmtsScopeCount]
  | s :: rest =>
    simp only [walkStmts, Label.bind_eq_ok, Label.pure_eq_ok, Prod.mk.injEq, Prod.exists] at h
    obtain ⟨first, n₁, hfirst, more, n₂, hmore, rfl, rfl⟩ := h
    rw [count_stmts rest hmore, count_stmt s hfirst, stmtsScopeCount, Nat.add_assoc]

theorem count_clauses {info : UnitInfo} {enclosing : List Scope} {n n' : Nat} {items : List Item}
    (clauses : List Clause) (h : walkClauses info enclosing n clauses = .ok (items, n')) :
    n' = n + clausesScopeCount clauses := by
  match clauses with
  | [] =>
    simp only [walkClauses] at h
    cases h
    simp [clausesScopeCount]
  | .mk _ body :: rest =>
    simp only [walkClauses, Label.bind_eq_ok, Label.pure_eq_ok, Prod.mk.injEq, Prod.exists] at h
    obtain ⟨first, n₁, hfirst, more, n₂, hmore, rfl, rfl⟩ := h
    rw [count_clauses rest hmore, count_block body hfirst, clausesScopeCount, Nat.add_assoc]

end

/-! ## Scopes around a statement -/

theorem find?_zip {α β : Type} {R : α → β → Prop} {f : α → Bool} {g : β → Bool} {xs : List α} {ys : List β}
    (h : List.Forall₂ R xs ys) (hfg : ∀ x y, R x y → f x = g y) :
    (xs.find? f = none ∧ ys.find? g = none) ∨
      ∃ x y, xs.find? f = some x ∧ ys.find? g = some y ∧ (x, y) ∈ xs.zip ys := by
  induction h with
  | nil => exact .inl ⟨rfl, rfl⟩
  | @cons x y xs ys hxy _ ih =>
    simp only [List.find?_cons, hfg _ _ hxy, List.zip_cons_cons, List.mem_cons]
    cases g y with
    | true => exact .inr ⟨x, y, rfl, rfl, .inl rfl⟩
    | false => exact ih.imp_right fun ⟨x, y, hx, hy, hmem⟩ => ⟨x, y, hx, hy, .inr hmem⟩

theorem boundary?_zip {os : List OpenScope} {ss : List Scope} (h : List.Forall₂ SameScope os ss) (label : String) :
    (boundary? OpenScope.label OpenScope.isLoop label os = none ∧
      boundary? Scope.label Scope.isLoop label ss = none) ∨
    ∃ o s, boundary? OpenScope.label OpenScope.isLoop label os = some o ∧
      boundary? Scope.label Scope.isLoop label ss = some s ∧ (o, s) ∈ os.zip ss := by
  unfold boundary?
  split
  · exact find?_zip h fun o s hos => hos.2
  · exact find?_zip h fun o s hos => by rw [hos.1]

theorem classify_boundary {info : UnitInfo} {enclosing : List Scope} {verb : Verb} {label : String} {span : Span}
    {v : VerbUse} (h : classify info enclosing verb label span = .ok v) :
    MarkerKind.ofVerb? verb = some v.marker ∧ v.label = label ∧
      v.boundary = (boundary? Scope.label Scope.isLoop label enclosing).map (·.id) := by
  unfold classify at h
  split at h
  · cases h
  · rename_i marker hmarker
    split at h
    · cases h
      rename_i s hs
      exact ⟨hmarker, rfl, by rw [hs]; rfl⟩
    · split at h
      · cases h
      · cases h
        rename_i hs _
        exact ⟨hmarker, rfl, by rw [hs]; rfl⟩

namespace Activation

variable {a : Activation} {c : Context} {enclosing : List Scope} {n scopes count : Nat}

/-- The scopes around a statement, as the code and as the resolution know them; `n` is the number of the next
    scope, and all continuations leave at most `scopes` scopes and `count` iterators open. -/
structure Around (a : Activation) (c : Context) (enclosing : List Scope) (n scopes count : Nat) : Prop where
  isSub : c.isSub = a.unit.isSub
  origin : c.origin = a.unit.origin
  alike : List.Forall₂ SameScope c.enclosing enclosing
  older : ∀ s ∈ enclosing, s.id < n
  within : ∀ o ∈ c.enclosing, o.targets.Within scopes count

abbrev pairs (c : Context) (enclosing : List Scope) : List (OpenScope × Scope) := c.enclosing.zip enclosing

namespace Around

theorem mono {n' scopes' count' : Nat} (h : a.Around c enclosing n scopes count) (hn : n ≤ n')
    (hscopes : scopes ≤ scopes') (hcount : count ≤ count') : a.Around c enclosing n' scopes' count' :=
  ⟨h.isSub, h.origin, h.alike, fun s hs => Nat.lt_of_lt_of_le (h.older s hs) hn,
    fun o ho => (h.within o ho).mono hscopes hcount⟩

theorem landingAt (h : a.Around c enclosing n scopes count) (target : JumpTarget) :
    a.Around (c.landingAt target) enclosing n scopes count :=
  ⟨h.isSub, h.origin, h.alike, h.older, h.within⟩

theorem enter {m k : Nat} (h : a.Around c enclosing n scopes count) {label : Option Name} {isLoop : Bool}
    {targets : Continuations} {node : String} {span : Span} (htargets : targets.Within m k) (hscopes : scopes ≤ m)
    (hcount : count ≤ k) :
    a.Around (c.enter label isLoop targets) (openScope enclosing n node label isLoop span :: enclosing) (n + 1)
      m k := by
  refine ⟨h.isSub, h.origin, sameScopes_enter h.alike .., fun s hs => ?_, fun o ho => ?_⟩
  · obtain rfl | hs := List.mem_cons.mp hs
    · exact Nat.lt_succ_self n
    · exact Nat.lt_succ_of_lt (h.older s hs)
  · obtain rfl | ho := List.mem_cons.mp ho
    · exact htargets
    · exact (h.within o ho).mono hscopes hcount

theorem within_pairs (h : a.Around c enclosing n scopes count) :
    ∀ x ∈ pairs c enclosing, x.1.targets.Within scopes count :=
  fun _ hx => h.within _ (List.of_mem_zip hx).1

theorem fresh (h : a.Around c enclosing n scopes count) : ∀ x ∈ pairs c enclosing, x.2.id ≠ n :=
  fun _ hx => Nat.ne_of_lt (h.older _ (List.of_mem_zip hx).2)

end Around

/-! ## Continuations of scopes -/

section Targets

variable (p : Spot) (label : Option Name) (init : Stmt) (test step iterable : Expr) (negate : Bool) (body : Block)

theorem within_bareTargets : (bareTargets p label body).Within p.scopes p.iters := by
  rintro ⟨⟩ <;> exact ⟨_, _, _, rfl, Nat.le_refl _, Nat.le_refl _⟩

theorem within_whileTargets : (whileTargets p label test negate body).Within p.scopes p.iters := by
  rintro ⟨⟩ <;> exact ⟨_, _, _, rfl, Nat.le_refl _, Nat.le_refl _⟩

theorem within_forTargets : (forTargets p label init test step body).Within (p.scopes + 1) p.iters
  | .exit | .jump | .unknown _ => ⟨_, _, _, rfl, Nat.le_succ _, Nat.le_refl _⟩
  | .proceed | .restart => ⟨_, _, _, rfl, Nat.le_refl _, Nat.le_refl _⟩

theorem within_foreachTargets : (foreachTargets p label iterable body).Within p.scopes (p.iters + 1)
  | .exit | .jump | .unknown _ => ⟨_, _, _, rfl, Nat.le_refl _, Nat.le_succ _⟩
  | .proceed | .restart => ⟨_, _, _, rfl, Nat.le_refl _, Nat.le_refl _⟩

end Targets

/-! ## Tests -/

variable {env : Nat}

theorem tests_expr {test : Expr} (negate : Bool) {start middle stop : Nat}
    (hvalue : a.Gives env (evalExpr a.world env test) start middle)
    (hnot : LiesAt (a.unit.code[·]?) middle (negation negate))
    (hbranch : a.unit.code[middle + oneIf negate]? = some (bare (.branchIfFalse stop))) :
    a.Tests env (evalTest a.world env test negate) start (middle + oneIf negate + 1) stop := by
  intro σ stack iters next hat
  refine (hvalue hat).bind fun v τ next₁ _ hv => .store ?_
  cases negate with
  | false =>
    refine .pure ?_
    rw [Bool.bne_false]
    exact hv.branchIfFalse hbranch
  | true =>
    have hgoes : Goes a.limits next₁ (a.Stands τ env (.bool (!v.truthy τ.thread.store) :: stack) iters (middle + 1)) :=
      hv.goes (along_cons.mp hnot).1 hv.quiet fun _ _ => rfl
    refine hgoes.silently fun next₂ h₂ => .pure ?_
    rw [Bool.bne_true]
    exact h₂.branchIfFalse hbranch

/-! ## Headers -/

section Headers

variable {p : Spot} {code : Instructions} {b b' : Build}

theorem does_dropped {e : Expr} (h : lowerExpr c p e b = .ok (code, b')) (horigin : c.origin = a.unit.origin)
    (hcode : LiesAt (a.unit.code[·]?) p.ip (code ++ [bare .pop])) :
    a.Does env (do let _ ← evalExpr a.world env e) p.ip (p.ip + (e.size + 1)) := by
  simp only [along_append, along_cons, along_nil, length_lowerExpr _ h, and_true] at hcode
  intro σ stack iters next hat
  refine (gives_expr e h hcode.1 horigin hat).bind fun v τ next₁ _ hv => ?_
  exact (hv.pop hcode.2).silently fun next₂ h₂ => .pure h₂

theorem does_init {init : Stmt} (h : lowerInit c p init b = .ok (code, b')) (horigin : c.origin = a.unit.origin)
    (hcode : LiesAt (a.unit.code[·]?) p.ip code) :
    a.Does env (evalInit a.world env init) p.ip (p.ip + initSize init) := by
  obtain ⟨rfl, rfl, rfl⟩ | ⟨e, value, rfl, h₁, rfl⟩ := lowerInit_eq_ok h
  · exact fun _ _ _ _ hat => .pure hat
  · exact does_dropped h₁ horigin hcode

theorem does_step {step : Expr} (h : lowerOptional c p step .pop b = .ok (code, b'))
    (horigin : c.origin = a.unit.origin) (hcode : LiesAt (a.unit.code[·]?) p.ip code) :
    a.Does env (evalStep a.world env step) p.ip (p.ip + optionalSize step) := by
  obtain ⟨rfl, rfl, rfl⟩ | ⟨hm, value, h₁, rfl⟩ := lowerOptional_eq_ok h
  · exact fun _ _ _ _ hat => .pure hat
  · rw [evalStep, isMissing_eq_false hm, optionalSize_eq hm]
    exact does_dropped h₁ horigin hcode

theorem decides_optional {test : Expr} {stop : Nat}
    (h : lowerOptional c p test (.branchIfFalse stop) b = .ok (code, b'))
    (horigin : c.origin = a.unit.origin) (hcode : LiesAt (a.unit.code[·]?) p.ip code) :
    a.Decides env (evalOptionalTest a.world env test) p.ip (p.ip + optionalSize test) stop := by
  obtain ⟨rfl, rfl, rfl⟩ | ⟨hm, value, h₁, rfl⟩ := lowerOptional_eq_ok h
  · exact fun _ _ _ _ hat => .pure hat
  · simp only [along_append, along_cons, along_nil, length_lowerExpr _ h₁, and_true] at hcode
    rw [evalOptionalTest, isMissing_eq_false hm, optionalSize_eq hm]
    exact (tests_expr false (gives_expr test h₁ hcode.1 horigin) along_nil hcode.2).decides

end Headers

/-! ## Ends of the unit -/

section Ends

variable {σ : Stage} {iters : List Iter} {ip : Nat} {next : Next} {around : List (OpenScope × Scope)} {stop : Nat}

theorem realizes_signal {marker : Marker} {span : Span} (h : a.Stands σ env [] iters ip next)
    (hi : a.unit.code[ip]? = some (placed (.signal marker) span)) :
    Realizes a.limits a.fuel (a.world.signal marker) σ next (a.EndsAs around env iters stop) := by
  obtain ⟨m, steps, polls, rfl, hstep⟩ := h.exec hi
  simp only [Machine.exec, placed, Machine.signal, machine, h.quiet] at hstep
  unfold Realizes World.signal
  simp only [h.quiet]
  exact ⟨_, .step (.refl _), _, hstep, rfl, rfl, rfl⟩

/-- A tail call is parked, or the slot is occupied; either way the frame ends. -/
theorem realizes_park (callee : Value) (values : List Value) {stack : List Value} {i : Instruction}
    (h : a.Stands σ env stack iters ip next) (hi : a.unit.code[ip]? = some i)
    (hexec : ∀ steps polls, (a.machine σ env stack iters ip steps polls).exec a.limits i =
      (a.machine σ env stack iters ip steps polls).tailCall a.limits callee values) :
    Realizes a.limits a.fuel (World.park callee values) σ next (a.EndsAs around env iters stop) := by
  obtain ⟨m, steps, polls, rfl, hstep⟩ := h.exec hi
  rw [hexec] at hstep
  unfold Realizes World.park
  cases hslot : σ.thread.trampoline.park? ⟨callee, values⟩ with
  | none =>
    simp only [Machine.tailCall, machine, hslot] at hstep
    exact ⟨_, .step (.refl _), _, hstep, rfl, rfl, rfl⟩
  | some slot =>
    simp only [Machine.tailCall, machine, hslot] at hstep
    exact ⟨_, .step (.refl _), _, hstep, rfl, rfl, rfl⟩

end Ends

/-! ## Statements -/

theorem origin_header {label : Option Name} {hasCall : Bool} {target : JumpTarget} (h : c.origin = a.unit.origin) :
    (headerContext c label hasCall target).origin = a.unit.origin := by
  unfold headerContext
  split <;> exact h

mutual

theorem runs_lowerStmt {a : Activation} {c : Context} {p : Spot} {code : Instructions} {b b' : Build}
    {enclosing : List Scope} {n n' : Nat} {items : List Item} (iters : List Iter) (s : Stmt)
    (h : lowerStmt c p s b = .ok (code, b')) (hcode : LiesAt (a.unit.code[·]?) p.ip code)
    (hwalk : walkStmt a.world.info enclosing n s = .ok (items, n'))
    (haround : a.Around c enclosing n p.scopes p.iters) :
    a.Runs (pairs c enclosing) p iters (evalStmt a.world enclosing n · s) (p.ip + s.size) := by
  match s with
  | .missing =>
    simp only [evalStmt, Stmt.size]
    exact runs_nothing a _ p iters
  | .sub .. =>
    simp only [evalStmt, Stmt.size]
    exact runs_nothing a _ p iters
  | .expr e =>
    simp only [lowerStmt, Lower.bind_eq_ok, Lower.pure_eq_ok] at h
    obtain ⟨value, b₁, h₁, rfl, rfl⟩ := h
    simp only [along_append, along_cons, along_nil, length_lowerExpr _ h₁, and_true] at hcode
    obtain ⟨hvalue, hlast⟩ := hcode
    simp only [evalStmt, Stmt.size, ← Nat.add_assoc]
    intro σ env next hhome hat
    refine (gives_expr e h₁ hvalue haround.origin hat).bind fun v τ next₁ _ hv => ?_
    rw [haround.isSub] at hlast
    have hinfo : a.world.info.inSub = a.unit.isSub := rfl
    cases hsub : a.unit.isSub with
    | true =>
      simp only [hsub, if_true] at hlast
      simp only [hinfo, hsub, Bool.not_true, Bool.false_eq_true, if_false]
      exact (hv.pop hlast).silently fun next₂ h₂ => .pure h₂
    | false =>
      simp only [hsub, Bool.false_eq_true, if_false] at hlast
      simp only [hinfo, hsub, Bool.not_false, if_true]
      exact (hv.popResult hlast).silently fun next₂ h₂ => ⟨next₂, .refl next₂, h₂⟩
  | .block body =>
    simp only [lowerStmt] at h
    simp only [walkStmt] at hwalk
    simp only [evalStmt, Stmt.size]
    exact runs_lowerBlock iters body h hcode hwalk haround
  | .bare label body span =>
    simp only [lowerStmt, Lower.bind_eq_ok, Lower.pure_eq_ok] at h
    obtain ⟨inside, b₁, h₁, rfl, rfl⟩ := h
    simp only [walkStmt, Label.bind_eq_ok, Label.pure_eq_ok, Prod.mk.injEq, Prod.exists] at hwalk
    obtain ⟨items', n₁, hinside, rfl, rfl⟩ := hwalk
    simp only [List.cons_append, List.nil_append, along_append, along_cons, along_nil, length_lowerScope _ _ h₁,
      and_true] at hcode
    obtain ⟨henter, hbody, hexit⟩ := hcode
    have hown := within_bareTargets p label body
    have hscope := runs_lowerScope iters body h₁ hbody ⟨_, _, rfl⟩ hinside
      (haround.enter (m := p.scopes + 1) (hown.mono (Nat.le_succ _) (Nat.le_refl _)) (Nat.le_succ _) (Nat.le_refl _))
    simp only [evalStmt, Stmt.size, ← Nat.add_assoc]
    refine runs_bareBlock (o := ⟨labelText label, false, bareTargets p label body⟩) hown ?_ haround.fresh
      haround.within_pairs henter hscope hexit
    simp only [bareTargets, Spot.skip, Spot.target, ← Nat.add_assoc]
  | .whileLoop label test negate body span =>
    simp only [lowerStmt, Lower.bind_eq_ok, Lower.pure_eq_ok] at h
    obtain ⟨first, b₁, h₁, inside, b₂, h₂, rfl, rfl⟩ := h
    simp only [walkStmt, Label.bind_eq_ok, Label.pure_eq_ok, Prod.mk.injEq, Prod.exists] at hwalk
    obtain ⟨items', n₁, hinside, rfl, rfl⟩ := hwalk
    simp only [along_append, along_cons, along_nil, List.length_append, List.length_cons, List.length_nil,
      length_lowerExpr _ h₁, length_negation, length_lowerScope _ _ h₂, and_true, ← Nat.add_assoc] at hcode
    obtain ⟨⟨⟨⟨⟨⟨htest, hnot⟩, hbranch⟩, henter⟩, hbody⟩, hexit, hback⟩, -⟩ := hcode
    have hown := within_whileTargets p label test negate body
    have hscope := runs_lowerScope iters body h₂ (ip_whileRound_inner p test negate ▸ hbody) ⟨_, _, rfl⟩ hinside
      (haround.enter (m := p.scopes + 1) (hown.mono (Nat.le_succ _) (Nat.le_refl _)) (Nat.le_succ _) (Nat.le_refl _))
    have hstop : p.ip + (Stmt.whileLoop label test negate body span).size =
        (whileHeaderEnd p label test negate body).ip + oneIf (headerDispatch label test.hasCall) := by
      rw [ip_whileHeaderEnd]
      simp only [Stmt.size]
      omega
    simp only [evalStmt]
    rw [hstop]
    refine runs_whileLoop (o := ⟨labelText label, true, whileTargets p label test negate body⟩)
      (n := test.size + oneIf negate + 1) hown rfl haround.fresh haround.within_pairs (fun env => ?_) ?_ hscope ?_ ?_
    · have hvalue : a.Gives env _ _ _ := gives_expr test h₁ htest (origin_header haround.origin)
      simpa only [← Nat.add_assoc] using tests_expr negate hvalue hnot hbranch
    · simpa only [← Nat.add_assoc] using henter
    · simpa only [whileRound, Spot.inner, Spot.skip, ← Nat.add_assoc] using hexit
    · simpa only [whileRound, Spot.inner, Spot.skip, ← Nat.add_assoc] using hback
  | .forLoop label init test step body span =>
    simp only [lowerStmt_forLoop, Lower.bind_eq_ok, Lower.pure_eq_ok] at h
    obtain ⟨first, b₁, h₁, second, b₂, h₂, inside, b₃, h₃, third, b₄, h₄, rfl, rfl⟩ := h
    simp only [walkStmt, Label.bind_eq_ok, Label.pure_eq_ok, Prod.mk.injEq, Prod.exists] at hwalk
    obtain ⟨items₁, n₁, hinit, items₂, n₂, hinside, rfl, rfl⟩ := hwalk
    obtain rfl := count_stmt init hinit
    simp only [along_append, along_cons, along_nil, List.length_append, List.length_cons, List.length_nil,
      length_lowerInit h₁, length_lowerOptional h₂, length_lowerScope _ _ h₃, length_lowerOptional h₄,
      length_ite_singleton, Nat.zero_add, and_true, ← Nat.add_assoc] at hcode
    obtain ⟨⟨⟨⟨⟨⟨⟨⟨⟨henter, hfirst⟩, hsecond⟩, hround⟩, hbody⟩, hexit⟩, hthird⟩, hback⟩, -⟩, hclose⟩ := hcode
    have hown := within_forTargets p label init test step body
    have hscope := runs_lowerScope iters body h₃ (ip_forRound_inner p init test ▸ hbody) ⟨_, _, rfl⟩ hinside
      ((haround.enter (m := p.scopes + 1 + 1) (hown.mono (Nat.le_succ _) (Nat.le_refl _)) (Nat.le_add_right _ 2)
        (Nat.le_refl _)).mono (Nat.le_add_right ..) (Nat.le_refl _) (Nat.le_refl _))
    have hstop : p.ip + (Stmt.forLoop label init test step body span).size =
        (forClose p label init test step body).ip + 1 := by
      rw [ip_forClose]
      simp only [Stmt.size, forHasCall]
      omega
    simp only [evalStmt]
    rw [hstop]
    refine runs_forLoop (o := ⟨labelText label, true, forTargets p label init test step body⟩)
      (q := forRound p init test) (forTest p init).ip ((forStep p label init test body).ip + optionalSize step)
      rfl rfl hown ?_ haround.fresh
      haround.within_pairs henter (fun env => ?_) (fun env => ?_) ?_ hscope ?_ (fun env => ?_) ?_ ?_
    · simp only [forTargets, forStep, Spot.skip, Spot.inner, Spot.target, ← Nat.add_assoc]
    · rw [ip_forTest]
      exact does_init h₁ (origin_header haround.origin) hfirst
    · exact decides_optional h₂ (origin_header haround.origin) (ip_forTest p init ▸ hsecond)
    · exact ip_forRound p init test ▸ hround
    · exact ip_forRound_inner p init test ▸ hexit
    · have hstart : ((forRound p init test).inner 1).ip + body.scopeSize (modeOf (labelText label) true) + 1 =
          (forStep p label init test body).ip := by
        rw [ip_forRound_inner, ip_forStep]
      rw [hstart]
      exact does_step h₄ (origin_header haround.origin) (ip_forStep p label init test body ▸ hthird)
    · exact ip_forStep p label init test body ▸ hback
    · exact ip_forClose p label init test step body ▸ hclose
  | .foreachLoop label item iterable body span =>
    simp only [lowerStmt, Lower.bind_eq_ok, Lower.pure_eq_ok] at h
    obtain ⟨first, b₁, h₁, inside, b₂, h₂, rfl, rfl⟩ := h
    simp only [walkStmt, Label.bind_eq_ok, Label.pure_eq_ok, Prod.mk.injEq, Prod.exists] at hwalk
    obtain ⟨items', n₁, hinside, rfl, rfl⟩ := hwalk
    simp only [along_append, along_cons, along_nil, List.length_append, List.length_cons, List.length_nil,
      length_lowerExpr _ h₁, length_lowerScope _ _ h₂, Nat.zero_add, and_true, ← Nat.add_assoc] at hcode
    obtain ⟨⟨⟨⟨hiterable, hinit, hnext⟩, henter, hbind⟩, hbody⟩, hexit, hback, hpop⟩ := hcode
    have hown := within_foreachTargets p label iterable body
    have hscope := fun it => runs_lowerScope (it :: iters) body h₂ hbody ⟨_, _, rfl⟩ hinside
      (haround.enter (m := p.scopes + 1) (hown.mono (Nat.le_succ _) (Nat.le_refl _)) (Nat.le_succ _) (Nat.le_succ _))
    have hnext' : (foreachEnd p label iterable body).ip =
        p.ip + iterable.size + 1 + 3 + body.scopeSize (modeOf (labelText label) true) + 1 + 1 := by
      rw [ip_foreachEnd]
    have hstop : p.ip + (Stmt.foreachLoop label item iterable body span).size =
        p.ip + iterable.size + 1 + 3 + body.scopeSize (modeOf (labelText label) true) + 1 + 1 + 1 := by
      simp only [Stmt.size]
      omega
    rw [hnext'] at hnext
    simp only [evalStmt]
    rw [hstop]
    refine runs_foreachLoop (o := ⟨labelText label, true, foreachTargets p label iterable body⟩) (n := iterable.size)
      hown ?_ haround.fresh haround.within_pairs (fun env => gives_expr iterable h₁ hiterable haround.origin) hinit
      hnext henter hbind hscope hexit hback hpop
    simp only [foreachTargets, hnext', foreachNext, Spot.skip, Spot.target]
  | .ifChain test negate body clauses otherwise span =>
    simp only [lowerStmt, Lower.bind_eq_ok, Lower.pure_eq_ok] at h
    obtain ⟨first, b₁, h₁, inside, b₂, h₂, more, b₃, h₃, last, b₄, h₄, rfl, rfl⟩ := h
    simp only [walkStmt, Label.bind_eq_ok, Label.pure_eq_ok, Prod.mk.injEq, Prod.exists] at hwalk
    obtain ⟨items₁, n₁, hinside, items₂, n₂, hmore, items₃, n₃, hlast, rfl, rfl⟩ := hwalk
    obtain rfl := count_block body hinside
    obtain rfl := count_clauses clauses hmore
    simp only [along_append, along_cons, along_nil, List.length_append, List.length_cons, List.length_nil,
      length_lowerExpr _ h₁, length_negation, length_lowerBlock _ h₂, length_lowerClauses _ h₃, and_true,
      ← Nat.add_assoc] at hcode
    obtain ⟨⟨⟨⟨⟨⟨htest, hnot⟩, hbranch⟩, hbody⟩, hleave⟩, hclauses⟩, helse⟩ := hcode
    have hfirst := runs_lowerBlock iters body h₂
      (by simpa only [Spot.skip, ← Nat.add_assoc] using hbody) hinside haround
    have hotherwise := runs_lowerBlock iters otherwise h₄
      (by simpa only [Spot.skip, ← Nat.add_assoc] using helse) hlast
      (haround.mono (Nat.le_trans (Nat.le_add_right ..) (Nat.le_add_right ..)) (Nat.le_refl _) (Nat.le_refl _))
    have hstop : p.ip + (Stmt.ifChain test negate body clauses otherwise span).size =
        (((p.skip (test.size + oneIf negate + 1)).skip (body.size + 1)).skip (clausesSize clauses)).ip
          + otherwise.size := by
      simp only [Stmt.size, Spot.skip]
      omega
    rw [← hstop] at hotherwise
    have hsecond := runs_lowerClauses iters clauses h₃ (by simpa only [Spot.skip, ← Nat.add_assoc] using hclauses) hmore
      (haround.mono (Nat.le_add_right ..) (Nat.le_refl _) (Nat.le_refl _)) hotherwise
    rw [← Spot.skip_add] at hsecond
    simp only [evalStmt]
    refine runs_choice (fun env => ?_) hfirst (by simpa only [Spot.skip, ← Nat.add_assoc] using hleave) hsecond
    have hvalue : a.Gives env _ _ _ := gives_expr test h₁ htest haround.origin
    simpa only [Spot.skip, ← Nat.add_assoc] using tests_expr negate hvalue hnot hbranch
  | .verb kind label span =>
    simp only [lowerStmt] at h
    simp only [walkStmt, Label.bind_eq_ok, Label.pure_eq_ok, Prod.mk.injEq] at hwalk
    obtain ⟨v, hv, rfl, rfl⟩ := hwalk
    obtain ⟨hmarker, hlabel, hboundary⟩ := classify_boundary hv
    simp only [hmarker, Lower.pure_eq_ok] at h
    obtain ⟨rfl, rfl⟩ := h
    have hi := (along_cons.mp hcode).1
    simp only [evalStmt, hv, hboundary]
    intro σ env next hhome hat
    obtain ⟨hout, hout'⟩ | ⟨o, s, ho, hs, hmem⟩ := boundary?_zip haround.alike (labelText label)
    -- No scope of the unit takes the verb: it becomes a marker for the callers.
    · simp only [verbInstr, hout] at hi
      simp only [hout', hlabel, Option.map_none]
      rw [haround.origin] at hi
      exact realizes_signal hat hi
    · simp only [verbInstr, ho] at hi
      simp only [hs, Option.map_some]
      obtain ⟨ip, n, m, htarget, -, -⟩ := haround.within o (List.of_mem_zip hmem).1 v.marker
      rw [htarget] at hi
      refine (hat.jump hi).silently fun next₁ hlands => .pure ⟨(o, s), hmem, rfl, ?_⟩
      rw [htarget]
      exact hlands
  | .tailCall callee args reuse span =>
    cases reuse <;> simp only [lowerStmt, Lower.bind_eq_ok, Lower.pure_eq_ok, if_true, if_false,
      Bool.false_eq_true] at h
    · obtain ⟨first, b₁, h₁, second, b₂, h₂, rfl, rfl⟩ := h
      simp only [along_append, along_cons, along_nil, List.length_append, length_lowerExpr _ h₁,
        length_lowerExprs _ h₂, and_true, ← Nat.add_assoc] at hcode
      obtain ⟨⟨hcallee, hargs⟩, hcall⟩ := hcode
      simp only [evalStmt]
      intro σ env next hhome hat
      refine (gives_expr callee h₁ hcallee haround.origin hat).bind fun f τ next₁ _ hf => ?_
      refine (gives_exprs args h₂ hargs haround.origin hf).bind fun vs τ' next₂ _ ⟨hlength, hvs⟩ => ?_
      refine realizes_park f vs hvs hcall fun steps polls => ?_
      simp only [Machine.exec, placed, machine, ← hlength, popMany?_reverse_append, Bool.false_eq_true, if_false]
    · obtain ⟨first, b₁, h₁, second, b₂, ⟨rfl, rfl⟩, rfl, rfl⟩ := h
      simp only [List.append_nil, along_append, along_cons, along_nil, length_lowerExpr _ h₁, and_true] at hcode
      simp only [evalStmt]
      intro σ env next hhome hat
      refine (gives_expr callee h₁ hcode.1 haround.origin hat).bind fun f τ next₁ _ hf => ?_
      exact realizes_park f a.args hf hcode.2 fun steps polls => rfl
  | .ret argument span =>
    simp only [lowerStmt, Lower.bind_eq_ok, Lower.pure_eq_ok] at h
    obtain ⟨value, b₁, h₁, rfl, rfl⟩ := h
    simp only [along_append, along_cons, along_nil, length_lowerExpr _ h₁, and_true] at hcode
    simp only [evalStmt]
    intro σ env next hhome hat
    refine (gives_expr argument h₁ hcode.1 haround.origin hat).bind fun v τ next₁ _ hv => ?_
    exact (hv.ret hcode.2).silently fun next₂ h₂ => .pure h₂

theorem runs_lowerBlock {a : Activation} {c : Context} {p : Spot} {code : Instructions} {b b' : Build}
    {enclosing : List Scope} {n n' : Nat} {items : List Item} (iters : List Iter) (body : Block)
    (h : lowerBlock c p body b = .ok (code, b')) (hcode : LiesAt (a.unit.code[·]?) p.ip code)
    (hwalk : walkBlock a.world.info enclosing n body = .ok (items, n'))
    (haround : a.Around c enclosing n p.scopes p.iters) :
    a.Runs (pairs c enclosing) p iters (evalBlock a.world enclosing n · body) (p.ip + body.size) := by
  match body with
  | .missing =>
    simp only [evalBlock, Block.size]
    exact runs_nothing a _ p iters
  | .mk stmts _ =>
    simp only [lowerBlock, Lower.bind_eq_ok, Lower.pure_eq_ok] at h
    obtain ⟨inside, b₁, h₁, rfl, rfl⟩ := h
    simp only [walkBlock] at hwalk
    simp only [List.cons_append, List.nil_append, along_append, along_cons, along_nil, length_lowerStmts _ h₁,
      and_true] at hcode
    obtain ⟨henter, hinside, hexit⟩ := hcode
    simp only [evalBlock, Block.size, ← Nat.add_assoc]
    have hbody := runs_lowerStmts iters stmts h₁ hinside hwalk
      (haround.mono (Nat.le_refl _) (Nat.le_succ _) (Nat.le_refl _))
    exact runs_block henter hbody hexit haround.within_pairs

/-- The body of a loop or bare block; with an empty channel its dispatch points do nothing. -/
theorem runs_lowerScope {a : Activation} {c : Context} {mode : DispatchMode} {point : Instruction} {p : Spot}
    {code : Instructions} {b b' : Build} {enclosing : List Scope} {n n' : Nat} {items : List Item}
    (iters : List Iter) (body : Block) (h : lowerScope c mode point p body b = .ok (code, b'))
    (hcode : LiesAt (a.unit.code[·]?) p.ip code) (hpoint : ∃ table span, point = placed (.dispatch table) span)
    (hwalk : walkBlock a.world.info enclosing n body = .ok (items, n'))
    (haround : a.Around c enclosing n p.scopes p.iters) :
    a.Runs (pairs c enclosing) p iters (evalScope a.world enclosing n · body) (p.ip + body.scopeSize mode) := by
  obtain ⟨table, span, rfl⟩ := hpoint
  -- A body without statements is its dispatch point alone.
  have halone : a.unit.code[p.ip]? = some (placed (.dispatch table) span) →
      a.Runs (pairs c enclosing) p iters (fun _ => pure .normal) (p.ip + 1) :=
    fun hi => (runs_nothing a _ p iters).onward fun _ _ _ hat => hat.dispatch hi
  match body with
  | .missing =>
    simp only [lowerScope, Lower.pure_eq_ok] at h
    obtain ⟨rfl, rfl⟩ := h
    simp only [evalScope]
    cases mode with
    | none => exact runs_nothing a _ p iters
    | loopEnd | perStatement => exact halone (along_cons.mp hcode).1
  | .mk stmts _ =>
    simp only [walkBlock] at hwalk
    simp only [evalScope]
    cases mode with
    | none =>
      simp only [lowerScope] at h
      exact runs_lowerStmts iters stmts h hcode hwalk haround
    | loopEnd =>
      simp only [lowerScope, Lower.bind_eq_ok, Lower.pure_eq_ok] at h
      obtain ⟨inside, b₁, h₁, rfl, rfl⟩ := h
      simp only [along_append, along_cons, along_nil, length_lowerStmts _ h₁, and_true] at hcode
      simp only [Block.scopeSize, ← Nat.add_assoc]
      have hbody := runs_lowerStmts iters stmts h₁ hcode.1 hwalk (haround.landingAt _)
      exact hbody.onward fun _ _ _ hat => hat.dispatch hcode.2
    | perStatement =>
      simp only [lowerScope] at h
      cases hs : stmts.isEmpty with
      | true =>
        simp only [hs, if_true, Lower.pure_eq_ok] at h
        obtain ⟨rfl, rfl⟩ := h
        obtain rfl := List.isEmpty_iff.mp hs
        simp only [Block.scopeSize, hs, if_true, evalStmts]
        exact halone (along_cons.mp hcode).1
      | false =>
        simp only [hs, Bool.false_eq_true, if_false] at h
        simp only [Block.scopeSize, hs, Bool.false_eq_true, if_false]
        exact runs_lowerEach iters stmts h hcode hwalk haround

theorem runs_lowerStmts {a : Activation} {c : Context} {p : Spot} {code : Instructions} {b b' : Build}
    {enclosing : List Scope} {n n' : Nat} {items : List Item} (iters : List Iter) (stmts : List Stmt)
    (h : lowerStmts c p stmts b = .ok (code, b')) (hcode : LiesAt (a.unit.code[·]?) p.ip code)
    (hwalk : walkStmts a.world.info enclosing n stmts = .ok (items, n'))
    (haround : a.Around c enclosing n p.scopes p.iters) :
    a.Runs (pairs c enclosing) p iters (evalStmts a.world enclosing n · stmts) (p.ip + stmtsSize stmts) := by
  match stmts with
  | [] =>
    simp only [evalStmts, stmtsSize]
    exact runs_nothing a _ p iters
  | s :: rest =>
    simp only [lowerStmts, Lower.bind_eq_ok, Lower.pure_eq_ok] at h
    obtain ⟨first, b₁, h₁, more, b₂, h₂, rfl, rfl⟩ := h
    simp only [walkStmts, Label.bind_eq_ok, Label.pure_eq_ok, Prod.mk.injEq, Prod.exists] at hwalk
    obtain ⟨items₁, n₁, hfirst, items₂, n₂, hmore, rfl, rfl⟩ := hwalk
    simp only [along_append, length_lowerStmt _ h₁] at hcode
    obtain rfl := count_stmt s hfirst
    simp only [evalStmts, stmtsSize, ← Nat.add_assoc]
    exact (runs_lowerStmt iters s h₁ hcode.1 hfirst haround).andThen
      (runs_lowerStmts iters rest h₂ hcode.2 hmore (haround.mono (Nat.le_add_right ..) (Nat.le_refl _) (Nat.le_refl _)))

theorem runs_lowerEach {a : Activation} {c : Context} {table : DispatchTable} {span : Span} {p : Spot}
    {code : Instructions} {b b' : Build} {enclosing : List Scope} {n n' : Nat} {items : List Item}
    (iters : List Iter) (stmts : List Stmt) (h : lowerEach c (placed (.dispatch table) span) p stmts b = .ok (code, b'))
    (hcode : LiesAt (a.unit.code[·]?) p.ip code)
    (hwalk : walkStmts a.world.info enclosing n stmts = .ok (items, n'))
    (haround : a.Around c enclosing n p.scopes p.iters) :
    a.Runs (pairs c enclosing) p iters (evalStmts a.world enclosing n · stmts)
      (p.ip + (stmtsSize stmts + stmts.length)) := by
  match stmts with
  | [] =>
    simp only [evalStmts, stmtsSize]
    exact runs_nothing a _ p iters
  | s :: rest =>
    simp only [lowerEach, Lower.bind_eq_ok, Lower.pure_eq_ok] at h
    obtain ⟨first, b₁, h₁, more, b₂, h₂, rfl, rfl⟩ := h
    simp only [walkStmts, Label.bind_eq_ok, Label.pure_eq_ok, Prod.mk.injEq, Prod.exists] at hwalk
    obtain ⟨items₁, n₁, hfirst, items₂, n₂, hmore, rfl, rfl⟩ := hwalk
    simp only [along_append, along_cons, along_nil, List.length_append, List.length_cons, List.length_nil,
      length_lowerStmt _ h₁, and_true, ← Nat.add_assoc] at hcode
    obtain rfl := count_stmt s hfirst
    obtain ⟨⟨hstmt, hpoint⟩, hrest⟩ := hcode
    -- The channel is empty behind a statement, so the dispatch point there is passed.
    have hone := (runs_lowerStmt iters s h₁ hstmt hfirst (haround.landingAt _)).onward
      fun _ _ _ hat => hat.dispatch hpoint
    have hmany := runs_lowerEach iters rest h₂ hrest hmore
      (haround.mono (Nat.le_add_right ..) (Nat.le_refl _) (Nat.le_refl _))
    have hstop : p.ip + (stmtsSize (s :: rest) + (s :: rest).length) =
        (p.skip (s.size + 1)).ip + (stmtsSize rest + rest.length) := by
      simp only [stmtsSize, List.length_cons, Spot.skip]
      omega
    simp only [evalStmts]
    rw [hstop]
    exact Runs.andThen (n := s.size + 1) hone hmany

theorem runs_lowerClauses {a : Activation} {c : Context} {stop : Nat} {p : Spot} {code : Instructions} {b b' : Build}
    {enclosing : List Scope} {n n' : Nat} {items : List Item} (iters : List Iter) {otherwise : Nat → Eval Ending}
    (clauses : List Clause) (h : lowerClauses c stop p clauses b = .ok (code, b'))
    (hcode : LiesAt (a.unit.code[·]?) p.ip code)
    (hwalk : walkClauses a.world.info enclosing n clauses = .ok (items, n'))
    (haround : a.Around c enclosing n p.scopes p.iters)
    (hotherwise : a.Runs (pairs c enclosing) (p.skip (clausesSize clauses)) iters otherwise stop) :
    a.Runs (pairs c enclosing) p iters (fun env => evalClauses a.world enclosing n env (otherwise env) clauses)
      stop := by
  match clauses with
  | [] =>
    simp only [evalClauses]
    exact hotherwise
  | .mk test body :: rest =>
    simp only [lowerClauses, Lower.bind_eq_ok, Lower.pure_eq_ok] at h
    obtain ⟨first, b₁, h₁, inside, b₂, h₂, more, b₃, h₃, rfl, rfl⟩ := h
    simp only [walkClauses, Label.bind_eq_ok, Label.pure_eq_ok, Prod.mk.injEq, Prod.exists] at hwalk
    obtain ⟨items₁, n₁, hinside, items₂, n₂, hmore, rfl, rfl⟩ := hwalk
    simp only [along_append, along_cons, along_nil, List.length_append, List.length_cons, List.length_nil,
      length_lowerExpr _ h₁, length_lowerBlock _ h₂, and_true, ← Nat.add_assoc] at hcode
    obtain ⟨⟨⟨⟨htest, hbranch⟩, hbody⟩, hleave⟩, hrest⟩ := hcode
    obtain rfl := count_block body hinside
    have hfirst := runs_lowerBlock iters body h₂ hbody hinside haround
    -- The later arms start where this one ends, and what comes after them stays where it is.
    have hsecond := runs_lowerClauses iters rest h₃ hrest hmore
      (haround.mono (Nat.le_add_right ..) (Nat.le_refl _) (Nat.le_refl _))
      (by simpa only [clausesSize, Spot.skip, ← Nat.add_assoc] using hotherwise)
    rw [← Spot.skip_add] at hsecond
    simp only [evalClauses]
    refine runs_choice (fun env => ?_) hfirst hleave hsecond
    have hvalue : a.Gives env _ _ _ := gives_expr test h₁ htest haround.origin
    simpa only [Spot.skip, oneIf, Bool.false_eq_true, if_false, Nat.add_zero, ← Nat.add_assoc]
      using tests_expr false hvalue along_nil hbranch

end

end Activation

end KestrelLang
