import KestrelLang.Proofs.Code.Flow

/-! # Flow of shapes through statements

* `ContextFits` — the landing of a context and the continuations of its scopes are at home in a frame
  of a given shape.
* `fits_whileTargets`, `fits_forTargets`, … — the continuations of a scope are at home in it.
* `entry_stmt`, `entry_block`, … — the code of a node begins with the shape that it ends with.
* `flows_lowerStmt`, `flows_lowerStmts`, … — the code of statements fits the shapes of its sites. -/

namespace KestrelLang.Code

open KestrelLang.Label

variable {shapes : Nat → Option Shape}

/-! ## Targets -/

theorem TargetFits.mono {s r : Shape} {t : JumpTarget} (h : TargetFits shapes s t)
    (hscopes : s.scopes ≤ r.scopes) (hiters : s.iters ≤ r.iters) : TargetFits shapes r t := by
  cases t with
  | exit => trivial
  | «to» ip scopes iters =>
    obtain ⟨h₁, h₂, h₃⟩ := h
    exact ⟨Nat.le_trans h₁ hscopes, Nat.le_trans h₂ hiters, h₃⟩

theorem targetFits_spot {p q : Spot} (h : shapes q.ip = some q.shape) (hscopes : q.scopes ≤ p.scopes)
    (hiters : q.iters ≤ p.iters) : TargetFits shapes p.shape q.target :=
  ⟨hscopes, hiters, h⟩

/-- The continuations of a scope are addresses that are at home in a frame of shape `s`. -/
def ContinuationsFit (shapes : Nat → Option Shape) (s : Shape) (k : Continuations) : Prop :=
  ∀ kind, (k.of kind).staysInside ∧ TargetFits shapes s (k.of kind)

theorem ContinuationsFit.mono {s r : Shape} {k : Continuations} (h : ContinuationsFit shapes s k)
    (hscopes : s.scopes ≤ r.scopes) (hiters : s.iters ≤ r.iters) : ContinuationsFit shapes r k :=
  fun kind => ⟨(h kind).1, (h kind).2.mono hscopes hiters⟩

theorem continuationsFit_mk {s : Shape} {k : Continuations}
    (hinside : ∀ kind, (k.of kind).staysInside) (hafter : TargetFits shapes s k.after)
    (hrecheck : TargetFits shapes s k.recheck) (hbody : TargetFits shapes s k.bodyStart)
    (hentry : TargetFits shapes s k.entry) : ContinuationsFit shapes s k := by
  intro kind
  refine ⟨hinside kind, ?_⟩
  cases kind <;> assumption

/-- The landing and the continuations of a context are at home in a frame of shape `s`. -/
structure ContextFits (shapes : Nat → Option Shape) (s : Shape) (c : Context) : Prop where
  landing : TargetFits shapes s c.landing
  enclosing : ∀ o ∈ c.enclosing, ContinuationsFit shapes s o.targets

namespace ContextFits

variable {c : Context} {s r : Shape}

theorem mono (h : ContextFits shapes s c) (hscopes : s.scopes ≤ r.scopes)
    (hiters : s.iters ≤ r.iters) : ContextFits shapes r c :=
  ⟨h.landing.mono hscopes hiters, fun o ho => (h.enclosing o ho).mono hscopes hiters⟩

theorem landingAt (h : ContextFits shapes s c) {t : JumpTarget} (ht : TargetFits shapes s t) :
    ContextFits shapes s (c.landingAt t) :=
  ⟨ht, h.enclosing⟩

theorem enter (h : ContextFits shapes s c) {label : Option Name} {isLoop : Bool} {k : Continuations}
    (hk : ContinuationsFit shapes s k) : ContextFits shapes s (c.enter label isLoop k) := by
  refine ⟨h.landing, fun o ho => ?_⟩
  obtain rfl | ho := List.mem_cons.mp ho
  · exact hk
  · exact h.enclosing o ho

theorem header (h : ContextFits shapes s c) {label : Option Name} {hasCall : Bool} {t : JumpTarget}
    (ht : headerDispatch label hasCall → TargetFits shapes s t) :
    TargetFits shapes s (headerContext c label hasCall t).landing := by
  unfold headerContext
  split
  · exact ht ‹_›
  · exact h.landing

end ContextFits

theorem boundary?_mem {α : Type} {labelOf : α → String} {isLoop : α → Bool} {label : String}
    {enclosing : List α} {o : α} (h : boundary? labelOf isLoop label enclosing = some o) :
    o ∈ enclosing := by
  unfold boundary? at h
  split at h <;> exact List.mem_of_find?_eq_some h

theorem fits_dispatchPoint {s : Shape} {ip : Nat} {label : Option Name} {k : Continuations}
    {onward : JumpTarget} {span : Span} (hnext : shapes (ip + 1) = some s)
    (honward : TargetFits shapes s onward) (hk : ContinuationsFit shapes s k) :
    OperationFits shapes ip s (dispatchPoint label k onward span).op := by
  refine ⟨hnext, honward, fun targets htargets => ?_, fun hlabel => ?_⟩
  · simp only at htargets
    split at htargets
    · cases htargets
    · cases htargets
      exact hk
  · exact Option.isSome_iff_exists.mpr ⟨k, if_neg hlabel⟩

/-! ## Continuations of scopes -/

section Targets

variable {p : Spot} {label : Option Name} {init : Stmt} {test step iterable : Expr} {negate : Bool}
  {body : Block} {span : Span}

theorem fits_bareTargets (hentry : shapes p.ip = some p.shape)
    (hend : shapes (p.ip + (Stmt.bare label body span).size) = some p.shape) :
    ContinuationsFit shapes (bareBody p).shape (bareTargets p label body) := by
  simp only [Stmt.size] at hend
  have hafter := targetFits_spot (p := bareBody p) (q := p.skip _) hend (Nat.le_succ _) (Nat.le_refl _)
  have hagain := targetFits_spot (p := bareBody p) hentry (Nat.le_succ _) (Nat.le_refl _)
  exact continuationsFit_mk (by rintro ⟨⟩ <;> rfl) hafter hafter hagain hagain

/-- All continuations stand at the depths of the loop itself, where its header looks at the channel. -/
theorem fits_whileTargets (hentry : shapes p.ip = some p.shape)
    (hround : shapes (p.ip + test.size + oneIf negate + 1) = some p.shape)
    (hend : shapes (p.ip + (Stmt.whileLoop label test negate body span).size) = some p.shape) :
    ContinuationsFit shapes p.shape (whileTargets p label test negate body) := by
  simp only [Stmt.size, ← Nat.add_assoc] at hend
  refine continuationsFit_mk (by rintro ⟨⟩ <;> rfl) ⟨Nat.le_refl _, Nat.le_refl _, ?_⟩
    ⟨Nat.le_refl _, Nat.le_refl _, hentry⟩ ⟨Nat.le_refl _, Nat.le_refl _, ?_⟩
    ⟨Nat.le_refl _, Nat.le_refl _, hentry⟩
  · rw [Spot.skip, ip_whileHeaderEnd]
    exact hend
  · rw [ip_whileRound]
    exact hround

theorem fits_forTargets (hentry : shapes p.ip = some p.shape)
    (hround : shapes (p.ip + 1 + initSize init + optionalSize test) = some (forTest p init).shape)
    (hstep : shapes (p.ip + 1 + initSize init + optionalSize test + 1
      + body.scopeSize (modeOf (labelText label) true) + 1) = some (forTest p init).shape)
    (hend : shapes (p.ip + (Stmt.forLoop label init test step body span).size) = some p.shape) :
    ContinuationsFit shapes (forTest p init).shape (forTargets p label init test step body) := by
  have hcall : (initHasCall init || test.hasCall || step.hasCall) = forHasCall init test step := rfl
  simp only [Stmt.size, hcall, ← Nat.add_assoc] at hend
  refine continuationsFit_mk (by rintro ⟨⟩ <;> rfl) ⟨Nat.le_succ _, Nat.le_refl _, ?_⟩
    ⟨Nat.le_refl _, Nat.le_refl _, ?_⟩ ⟨Nat.le_refl _, Nat.le_refl _, ?_⟩
    ⟨Nat.le_succ _, Nat.le_refl _, hentry⟩
  · rw [ip_forClose]
    exact hend
  · rw [ip_forStep]
    exact hstep
  · rw [ip_forRound]
    exact hround

theorem fits_foreachTargets {item : Name} (hentry : shapes p.ip = some p.shape)
    (hnext : shapes (p.ip + iterable.size + 1) = some (foreachNext p iterable).shape)
    (hround : shapes (p.ip + iterable.size + 2) = some (foreachNext p iterable).shape)
    (hend : shapes (p.ip + (Stmt.foreachLoop label item iterable body span).size) = some p.shape) :
    ContinuationsFit shapes (foreachNext p iterable).shape (foreachTargets p label iterable body) := by
  simp only [Stmt.size, ← Nat.add_assoc] at hend
  refine continuationsFit_mk (by rintro ⟨⟩ <;> rfl) ⟨Nat.le_refl _, Nat.le_succ _, ?_⟩
    ⟨Nat.le_refl _, Nat.le_refl _, hnext⟩ ⟨Nat.le_refl _, Nat.le_refl _, hround⟩
    ⟨Nat.le_refl _, Nat.le_succ _, hentry⟩
  rw [ip_foreachEnd]
  exact hend

end Targets

/-! ## Small pieces -/

section Pieces

variable {pos : Nat} {s : Site}

theorem entry_siteIf {q : Bool} (h : Shaped shapes pos (siteIf q s))
    (hend : shapes (pos + oneIf q) = some s.toShape) : shapes pos = some s.toShape := by
  cases q with
  | false => exact hend
  | true => exact (along_cons.mp h).1

theorem flows_negation {negate : Bool} (h : Shaped shapes pos (siteIf negate (s.up 1)))
    (hend : shapes (pos + oneIf negate) = some (s.up 1).toShape) :
    Flows shapes pos (negation negate) := by
  cases negate with
  | false => exact along_nil
  | true => exact along_cons.mpr ⟨⟨_, (along_cons.mp h).1, Nat.le_add_left .., hend⟩, along_nil⟩

theorem flows_ite_singleton {q : Bool} {i : Instruction} (h : Shaped shapes pos (siteIf q s))
    (hfits : q → OperationFits shapes pos s.toShape i.op) :
    Flows shapes pos (if q then [i] else []) := by
  cases q with
  | false => exact along_nil
  | true => exact along_cons.mpr ⟨⟨_, (along_cons.mp h).1, hfits rfl⟩, along_nil⟩

theorem optionalSites_eq {e : Expr} (h : e ≠ .missing) :
    optionalSites s e = exprSites s e ++ [s.up 1] := by
  cases e <;> simp_all [optionalSites]

theorem entry_optional {e : Expr} (h : Shaped shapes pos (optionalSites s e))
    (hend : shapes (pos + optionalSize e) = some s.toShape) : shapes pos = some s.toShape := by
  by_cases hm : e = .missing
  · subst hm
    exact hend
  · rw [optionalSites_eq hm] at h
    exact entry_expr e h.of_append_left

theorem flows_lowerOptional {c : Context} {p : Spot} {e : Expr} {last : Operation CodeUnit}
    {code : Instructions} {b b' : Build} (h : lowerOptional c p e last b = .ok (code, b'))
    (hsites : Shaped shapes p.ip (optionalSites s e))
    (hend : shapes (p.ip + optionalSize e) = some s.toShape)
    (hland : TargetFits shapes s.toShape c.landing)
    (hlast : ∀ ip, shapes (ip + 1) = some s.toShape → OperationFits shapes ip (s.up 1).toShape last) :
    Flows shapes p.ip code := by
  obtain ⟨rfl, rfl, rfl⟩ | ⟨hm, value, h₁, rfl⟩ := lowerOptional_eq_ok h
  · exact along_nil
  · simp only [optionalSites_eq hm, optionalSize_eq hm, along_append, along_cons, along_nil,
      length_exprSites, and_true, ← Nat.add_assoc] at hsites hend
    obtain ⟨hvalue, hafter⟩ := hsites
    simp only [along_append, along_cons, along_nil, length_lowerExpr _ h₁, and_true]
    exact ⟨flows_lowerExpr e h₁ hvalue hafter hland, _, hafter, hlast _ hend⟩

theorem entry_init {init : Stmt} (h : Shaped shapes pos (initSites s init))
    (hend : shapes (pos + initSize init) = some s.toShape) : shapes pos = some s.toShape := by
  cases init <;> simp only [initSites, initSize, Nat.add_zero] at h hend
  case expr e => exact entry_expr e h.of_append_left
  all_goals exact hend

theorem flows_lowerInit {c : Context} {p : Spot} {init : Stmt} {code : Instructions} {b b' : Build}
    (h : lowerInit c p init b = .ok (code, b')) (hsites : Shaped shapes p.ip (initSites s init))
    (hend : shapes (p.ip + initSize init) = some s.toShape)
    (hland : TargetFits shapes s.toShape c.landing) : Flows shapes p.ip code := by
  obtain ⟨rfl, rfl, rfl⟩ | ⟨e, value, rfl, h₁, rfl⟩ := lowerInit_eq_ok h
  · exact along_nil
  · simp only [initSites, initSize, along_append, along_cons, along_nil, length_exprSites, and_true,
      ← Nat.add_assoc] at hsites hend
    obtain ⟨hvalue, hpop⟩ := hsites
    simp only [along_append, along_cons, along_nil, length_lowerExpr _ h₁, and_true]
    exact ⟨flows_lowerExpr e h₁ hvalue hpop hland, _, hpop, Nat.le_add_left .., hend⟩

end Pieces

/-! ## Entries of statements -/

section Entry

variable {c : Context} {p : Spot}

theorem entry_block {body : Block} (h : Shaped shapes p.ip (blockSites c p body))
    (hend : shapes (p.ip + body.size) = some p.shape) : shapes p.ip = some p.shape := by
  cases body with
  | missing => simpa [Block.size] using hend
  | mk stmts span =>
    rw [blockSites, List.append_assoc, List.singleton_append] at h
    exact (along_cons.mp h).1

theorem entry_stmt {s : Stmt} (h : Shaped shapes p.ip (stmtSites c p s))
    (hend : shapes (p.ip + s.size) = some p.shape) : shapes p.ip = some p.shape := by
  cases s <;> simp only [stmtSites, Stmt.size, List.append_assoc] at h hend
  case missing | sub => exact hend
  case block body => exact entry_block h hend
  case expr e | ret e _ => exact entry_expr e h.of_append_left
  case tailCall callee _ _ _ => exact entry_expr callee h.of_append_left
  case whileLoop _ test _ _ _ => exact entry_expr test h.of_append_left
  case foreachLoop _ _ iterable _ _ => exact entry_expr iterable h.of_append_left
  case ifChain test _ _ _ _ _ => exact entry_expr test h.of_append_left
  all_goals exact (along_cons.mp h).1

theorem entry_stmts {stmts : List Stmt} (h : Shaped shapes p.ip (stmtsSites c p stmts))
    (hend : shapes (p.ip + stmtsSize stmts) = some p.shape) : shapes p.ip = some p.shape := by
  induction stmts generalizing p with
  | nil => simpa [stmtsSize] using hend
  | cons s rest ih =>
    simp only [stmtsSites, stmtsSize, along_append, length_stmtSites, ← Nat.add_assoc] at h hend
    exact entry_stmt h.1 (ih (p := p.skip s.size) h.2 hend)

theorem entry_each {point : Site} {stmts : List Stmt} (hpoint : point.toShape = p.shape)
    (h : Shaped shapes p.ip (eachSites c point p stmts))
    (hend : shapes (p.ip + (stmtsSize stmts + stmts.length)) = some p.shape) :
    shapes p.ip = some p.shape := by
  cases stmts with
  | nil => simpa [stmtsSize] using hend
  | cons s rest =>
    simp only [eachSites, List.append_assoc, along_append, List.singleton_append, along_cons,
      length_stmtSites] at h
    exact entry_stmt h.1 (hpoint ▸ h.2.1)

theorem entry_scope {mode : DispatchMode} {point : Site} {body : Block}
    (hpoint : point.toShape = p.shape) (h : Shaped shapes p.ip (scopeSites c mode point p body))
    (hend : shapes (p.ip + body.scopeSize mode) = some p.shape) : shapes p.ip = some p.shape := by
  cases body with
  | missing =>
    cases mode with
    | none => exact hend
    | loopEnd | perStatement => exact hpoint ▸ (along_cons.mp h).1
  | mk stmts span =>
    cases mode with
    | none => exact entry_stmts h hend
    | loopEnd =>
      simp only [scopeSites, along_append, along_cons, length_stmtsSites] at h
      exact entry_stmts h.1 (hpoint ▸ h.2.1)
    | perStatement =>
      cases hs : stmts.isEmpty <;>
        simp only [scopeSites, Block.scopeSize, hs, Bool.false_eq_true, if_true, if_false] at h hend
      · exact entry_each hpoint h hend
      · exact hpoint ▸ (along_cons.mp h).1

theorem entry_clauses {clauses : List Clause} (h : Shaped shapes p.ip (clausesSites c p clauses))
    (hend : shapes (p.ip + clausesSize clauses) = some p.shape) : shapes p.ip = some p.shape := by
  cases clauses with
  | nil => simpa [clausesSize] using hend
  | cons clause rest =>
    obtain ⟨test, body⟩ := clause
    simp only [clausesSites, List.append_assoc] at h
    exact entry_expr test h.of_append_left

end Entry

/-! ## Statements -/

mutual

/-- The code of a statement fits the shapes of its sites, and leaves the shape that it found. -/
theorem flows_lowerStmt {c : Context} {p : Spot} {code : Instructions} {b b' : Build} (s : Stmt)
    (h : lowerStmt c p s b = .ok (code, b')) (hsites : Shaped shapes p.ip (stmtSites c p s))
    (hend : shapes (p.ip + s.size) = some p.shape) (hc : ContextFits shapes p.shape c) :
    Flows shapes p.ip code := by
  match s with
  | .missing =>
    simp only [lowerStmt, Lower.pure_eq_ok] at h
    simp [h]
  | .expr e =>
    simp only [lowerStmt, Lower.bind_eq_ok, Lower.pure_eq_ok] at h
    obtain ⟨value, b₁, h₁, rfl, rfl⟩ := h
    simp only [stmtSites, Stmt.size, along_append, along_cons, along_nil, length_exprSites, and_true,
      ← Nat.add_assoc] at hsites hend
    obtain ⟨hvalue, hpop⟩ := hsites
    simp only [along_append, along_cons, along_nil, length_lowerExpr _ h₁, and_true]
    refine ⟨flows_lowerExpr e h₁ hvalue hpop hc.landing, _, hpop, ?_⟩
    split <;> exact ⟨Nat.le_add_left .., hend⟩
  | .block body =>
    simp only [lowerStmt] at h
    simp only [stmtSites, Stmt.size] at hsites hend
    exact flows_lowerBlock body h hsites hend hc
  | .verb kind label span =>
    simp only [lowerStmt] at h
    simp only [stmtSites, along_cons, along_nil, and_true] at hsites
    cases hk : MarkerKind.ofVerb? kind with
    | none => simp [hk] at h
    | some marker =>
      simp only [hk, Lower.pure_eq_ok] at h
      obtain ⟨rfl, rfl⟩ := h
      simp only [along_cons, along_nil, and_true]
      refine ⟨_, hsites, ?_⟩
      -- A jump goes to a scope of the context, and those fit; what sends a marker asks for nothing.
      unfold verbInstr
      split
      · exact (hc.enclosing _ (boundary?_mem ‹_›) marker).2
      · trivial
  | .tailCall callee args reuse _ =>
    cases reuse <;> simp only [lowerStmt, Lower.bind_eq_ok, Lower.pure_eq_ok, if_true, if_false,
      Bool.false_eq_true] at h
    · obtain ⟨first, b₁, h₁, second, b₂, h₂, rfl, rfl⟩ := h
      simp only [stmtSites, Bool.false_eq_true, if_false, along_append, along_cons, along_nil,
        List.length_append, length_exprSites, length_exprsSites, and_true, ← Nat.add_assoc] at hsites
      obtain ⟨⟨hcallee, hargs⟩, hcall⟩ := hsites
      have hlast : shapes (p.ip + callee.size + exprsSize args) =
          some (((c.site p).up 1).up args.length).toShape := by
        simpa using hcall
      simp only [along_append, along_cons, along_nil, List.length_append, length_lowerExpr _ h₁,
        length_lowerExprs _ h₂, and_true, ← Nat.add_assoc]
      exact ⟨⟨flows_lowerExpr callee h₁ hcallee (entry_exprs args hargs hlast) hc.landing,
        flows_lowerExprs args h₂ hargs hlast hc.landing⟩, _, hcall, Nat.le_add_left ..⟩
    · obtain ⟨first, b₁, h₁, second, b₂, ⟨rfl, rfl⟩, rfl, rfl⟩ := h
      simp only [stmtSites, if_true, List.append_nil, along_append, along_cons, along_nil,
        length_exprSites, and_true] at hsites
      obtain ⟨hcallee, hcall⟩ := hsites
      simp only [List.append_nil, along_append, along_cons, along_nil, length_lowerExpr _ h₁, and_true]
      exact ⟨flows_lowerExpr callee h₁ hcallee hcall hc.landing, _, hcall, Nat.le_add_left ..⟩
  | .ret argument _ =>
    simp only [lowerStmt, Lower.bind_eq_ok, Lower.pure_eq_ok] at h
    obtain ⟨value, b₁, h₁, rfl, rfl⟩ := h
    simp only [stmtSites, along_append, along_cons, along_nil, length_exprSites, and_true] at hsites
    obtain ⟨hvalue, hret⟩ := hsites
    simp only [along_append, along_cons, along_nil, length_lowerExpr _ h₁, and_true]
    exact ⟨flows_lowerExpr argument h₁ hvalue hret hc.landing, _, hret, Nat.le_add_left ..⟩
  | .sub name params body _ =>
    simp only [lowerStmt, Lower.bind_eq_ok, Lower.pure_eq_ok] at h
    obtain ⟨_, b₁, _, unit, b₂, _, _, b₃, _, rfl, rfl⟩ := h
    exact along_nil
  | .bare label body span =>
    simp only [lowerStmt, Lower.bind_eq_ok, Lower.pure_eq_ok] at h
    obtain ⟨inside, b₁, h₁, rfl, rfl⟩ := h
    -- Inside the block one more scope is open than where its continuations stand.
    have hinner : ContextFits shapes (bareBody p).shape c := hc.mono (Nat.le_succ _) (Nat.le_refl _)
    simp only [stmtSites, List.cons_append, List.nil_append, along_append, along_cons, along_nil,
      length_scopeSites, and_true] at hsites
    obtain ⟨henter, hinside, hexit⟩ := hsites
    have hk : ContinuationsFit shapes (bareBody p).shape (bareTargets p label body) :=
      fits_bareTargets henter hend
    simp only [List.cons_append, List.nil_append, along_append, along_cons, along_nil,
      length_lowerScope _ _ h₁, and_true]
    simp only [Stmt.size, ← Nat.add_assoc] at hend
    exact ⟨⟨_, henter, entry_scope rfl hinside hexit⟩,
      flows_lowerScope body h₁ hinside hexit (hinner.enter hk) rfl
        fun ip hnext => fits_dispatchPoint hnext hinner.landing hk,
      _, hexit, Nat.le_add_left .., hend⟩
  | .whileLoop label test negate body span =>
    simp only [lowerStmt, Lower.bind_eq_ok, Lower.pure_eq_ok] at h
    obtain ⟨first, b₁, h₁, inside, b₂, h₂, rfl, rfl⟩ := h
    have hstop := hend
    simp only [stmtSites, Stmt.size, along_append, along_cons, along_nil, List.length_append,
      length_exprSites, length_siteIf, length_scopeSites, List.length_cons, List.length_nil,
      Nat.reduceAdd, and_true, ← Nat.add_assoc] at hsites hend
    obtain ⟨⟨⟨⟨⟨htest, hnot⟩, hbranch, henter⟩, hinside⟩, hexit, hback⟩, hdispatch⟩ := hsites
    have hinner : ContextFits shapes ((whileRound p test negate).inner 1).shape c :=
      hc.mono (Nat.le_succ _) (Nat.le_refl _)
    have hpoint : shapes (whileHeaderEnd p label test negate body).ip = some p.shape := by
      rw [ip_whileHeaderEnd]
      exact entry_siteIf hdispatch hend
    have hafter : shapes ((whileHeaderEnd p label test negate body).ip
        + oneIf (headerDispatch label test.hasCall)) = some p.shape := by
      rw [ip_whileHeaderEnd]
      exact hend
    have hentry : shapes p.ip = some p.shape := entry_expr test htest
    have hpk : ContinuationsFit shapes p.shape (whileTargets p label test negate body) :=
      fits_whileTargets hentry henter hstop
    have hk := hpk.mono (r := ((whileRound p test negate).inner 1).shape) (Nat.le_succ _)
      (Nat.le_refl _)
    -- A call in the test lands on the dispatch point of the header, if that is there.
    have hland : TargetFits shapes p.shape (headerContext c label test.hasCall _).landing :=
      hc.header fun _ => targetFits_spot (p := p) hpoint (Nat.le_refl _) (Nat.le_refl _)
    simp only [along_append, along_cons, along_nil, List.length_append, length_lowerExpr _ h₁,
      length_negation, length_lowerScope _ _ h₂, List.length_cons, List.length_nil, Nat.reduceAdd,
      and_true, ← Nat.add_assoc]
    have hbody := ip_whileRound_inner p test negate
    have hscope := flows_lowerScope body h₂ (hbody ▸ hinside) (hbody ▸ hexit) (hinner.enter hk) rfl
      fun ip hnext => fits_dispatchPoint hnext hinner.landing hk
    have hopened := entry_scope rfl (hbody ▸ hinside) (hbody ▸ hexit)
    rw [hbody] at hscope hopened
    have htested := entry_siteIf hnot hbranch
    refine ⟨⟨⟨⟨⟨⟨flows_lowerExpr test h₁ htest htested hland,
      flows_negation hnot hbranch⟩, _, hbranch, Nat.le_add_left .., henter, hafter⟩, _, henter,
      hopened⟩, hscope⟩, ⟨_, hexit, Nat.le_add_left .., hback⟩, _, hback, hentry⟩,
      flows_ite_singleton hdispatch fun hd => ?_⟩
    simp only [hd, oneIf, if_true] at hend
    exact fits_dispatchPoint hend hc.landing hpk
  | .forLoop label init test step body span =>
    simp only [lowerStmt_forLoop, Lower.bind_eq_ok, Lower.pure_eq_ok] at h
    obtain ⟨first, b₁, h₁, second, b₂, h₂, inside, b₃, h₃, third, b₄, h₄, rfl, rfl⟩ := h
    have hstop := hend
    have hcall : (initHasCall init || test.hasCall || step.hasCall) = forHasCall init test step := rfl
    simp only [stmtSites, Stmt.size, hcall, along_append, along_cons, along_nil, List.length_append,
      length_initSites, length_optionalSites, length_siteIf, length_scopeSites, List.length_cons,
      List.length_nil, Nat.reduceAdd, and_true, ← Nat.add_assoc] at hsites hend
    obtain ⟨⟨⟨⟨⟨⟨⟨⟨⟨henter, hinit⟩, htest⟩, hopen⟩, hinside⟩, hexit⟩, hstep⟩, hback⟩, hdispatch⟩,
      hclose⟩ := hsites
    have houter : ContextFits shapes (forTest p init).shape c :=
      hc.mono (Nat.le_succ _) (Nat.le_refl _)
    -- Backwards through the header: each part begins with the shape that the part after it needs.
    have hentered := entry_optional htest hopen
    have hstarted := entry_init hinit hentered
    have hstepped := entry_optional hstep hback
    have hpoint := entry_siteIf hdispatch hclose
    have hopk : ContinuationsFit shapes (forTest p init).shape
        (forTargets p label init test step body) :=
      fits_forTargets henter hopen hstepped hstop
    have hinner := houter.mono (r := ((forRound p init test).inner 1).shape) (Nat.le_succ _)
      (Nat.le_refl _)
    have hk := hopk.mono (r := ((forRound p init test).inner 1).shape) (Nat.le_succ _)
      (Nat.le_refl _)
    have hland : TargetFits shapes (forTest p init).shape
        (forHeader c p label init test step body).landing := by
      refine houter.header fun _ => ⟨Nat.le_refl _, Nat.le_refl _, ?_⟩
      rw [ip_forHeaderEnd]
      exact hpoint
    simp only [along_append, along_cons, along_nil, List.length_append, length_lowerInit h₁,
      length_lowerOptional h₂, length_lowerScope _ _ h₃, length_lowerOptional h₄, List.length_cons,
      List.length_nil, length_ite_singleton, Nat.reduceAdd, and_true, ← Nat.add_assoc]
    have hfirst := flows_lowerInit h₁ hinit hentered hland
    have hsecond := flows_lowerOptional h₂ (ip_forTest p init ▸ htest) (ip_forTest p init ▸ hopen) hland
      fun ip hnext => ⟨Nat.le_add_left .., hnext, ip_forClose p label init test step body ▸ hclose⟩
    have hbody := ip_forRound_inner p init test
    have hscope := flows_lowerScope body h₃ (hbody ▸ hinside) (hbody ▸ hexit) (hinner.enter hk) rfl
      fun ip hnext => fits_dispatchPoint hnext hinner.landing hk
    have hopened := entry_scope rfl (hbody ▸ hinside) (hbody ▸ hexit)
    have hthird := flows_lowerOptional h₄ (ip_forStep p label init test body ▸ hstep)
      (ip_forStep p label init test body ▸ hback) hland fun ip hnext => ⟨Nat.le_add_left .., hnext⟩
    rw [hbody] at hscope hopened
    rw [ip_forTest] at hsecond
    rw [ip_forStep] at hthird
    refine ⟨⟨⟨⟨⟨⟨⟨⟨⟨⟨_, henter, hstarted⟩, hfirst⟩, hsecond⟩, _, hopen, hopened⟩, hscope⟩,
      _, hexit, Nat.le_add_left .., hstepped⟩, hthird⟩, _, hback, ?_⟩,
      flows_ite_singleton hdispatch fun hd => ?_⟩, _, hclose, Nat.le_add_left .., hend⟩
    · exact ip_forTest p init ▸ hentered
    · simp only [hd, oneIf, if_true] at hclose
      exact fits_dispatchPoint hclose houter.landing hopk
  | .foreachLoop label item iterable body span =>
    simp only [lowerStmt, Lower.bind_eq_ok, Lower.pure_eq_ok] at h
    obtain ⟨first, b₁, h₁, inside, b₂, h₂, rfl, rfl⟩ := h
    have hstop := hend
    simp only [stmtSites, Stmt.size, along_append, along_cons, along_nil, List.length_append,
      length_exprSites, length_scopeSites, List.length_cons, List.length_nil, Nat.reduceAdd, and_true,
      ← Nat.add_assoc] at hsites hend
    obtain ⟨⟨⟨hiterable, hinit, hnext, henter, hbind⟩, hinside⟩, hexit, hback, hpop⟩ := hsites
    have hnextFits : ContextFits shapes (foreachNext p iterable).shape c :=
      hc.mono (Nat.le_refl _) (Nat.le_succ _)
    have hnk : ContinuationsFit shapes (foreachNext p iterable).shape
        (foreachTargets p label iterable body) :=
      fits_foreachTargets (entry_expr iterable hiterable) hnext henter hstop
    have hinner := hnextFits.mono (r := ((foreachNext p iterable).inner 3).shape) (Nat.le_succ _)
      (Nat.le_refl _)
    have hk := hnk.mono (r := ((foreachNext p iterable).inner 3).shape) (Nat.le_succ _)
      (Nat.le_refl _)
    have hscope := flows_lowerScope body h₂ hinside hexit (hinner.enter hk) rfl
      fun ip hnext => fits_dispatchPoint hnext hinner.landing hk
    have hbound := entry_scope (p := (foreachNext p iterable).inner 3) rfl hinside hexit
    have hdone : shapes (foreachEnd p label iterable body).ip =
        some (foreachNext p iterable).shape := by
      rw [ip_foreachEnd]
      exact hpop
    simp only [along_append, along_cons, along_nil, List.length_append, length_lowerExpr _ h₁,
      length_lowerScope _ _ h₂, List.length_cons, List.length_nil, Nat.reduceAdd, and_true,
      ← Nat.add_assoc]
    exact ⟨⟨⟨⟨flows_lowerExpr iterable h₁ hiterable hinit hc.landing,
      ⟨_, hinit, Nat.le_add_left .., hnext⟩, _, hnext, Nat.le_add_left .., henter, hdone⟩,
      ⟨_, henter, hbind⟩, _, hbind, Nat.le_add_left .., hbound⟩, hscope⟩,
      ⟨_, hexit, Nat.le_add_left .., hback⟩, ⟨_, hback, hnext⟩, _, hpop, Nat.le_add_left .., hend⟩
  | .ifChain test negate body clauses otherwise span =>
    simp only [lowerStmt, Lower.bind_eq_ok, Lower.pure_eq_ok] at h
    obtain ⟨first, b₁, h₁, inside, b₂, h₂, more, b₃, h₃, last, b₄, h₄, rfl, rfl⟩ := h
    have hstop := hend
    simp only [stmtSites, Stmt.size, Spot.skip, along_append, along_cons, along_nil,
      List.length_append, length_exprSites, length_siteIf, length_blockSites, length_clausesSites,
      List.length_cons, List.length_nil, Nat.reduceAdd, and_true, ← Nat.add_assoc] at hsites hend
    obtain ⟨⟨⟨⟨⟨⟨htest, hnot⟩, hbranch⟩, hinside⟩, hleave⟩, hmore⟩, hlast⟩ := hsites
    simp only [Spot.skip, ← Nat.add_assoc] at h₂ h₃ h₄
    -- Every arm ends where the whole chain ends, so that all branches meet in one shape.
    have helse := entry_block hlast hend
    have honward := entry_clauses hmore helse
    have hthen := entry_block hinside hleave
    have htested := entry_siteIf hnot hbranch
    simp only [Spot.skip, along_append, along_cons, along_nil, List.length_append,
      length_lowerExpr _ h₁, length_negation, length_lowerBlock _ h₂, length_lowerClauses _ h₃,
      List.length_cons, List.length_nil, Nat.reduceAdd, and_true, ← Nat.add_assoc]
    exact ⟨⟨⟨⟨⟨⟨flows_lowerExpr test h₁ htest htested hc.landing, flows_negation hnot hbranch⟩,
      _, hbranch, Nat.le_add_left .., hthen, honward⟩, flows_lowerBlock body h₂ hinside hleave hc⟩,
      _, hleave, hstop⟩, flows_lowerClauses clauses h₃ hmore helse hstop hc⟩,
      flows_lowerBlock otherwise h₄ hlast hend hc⟩

theorem flows_lowerBlock {c : Context} {p : Spot} {code : Instructions} {b b' : Build} (body : Block)
    (h : lowerBlock c p body b = .ok (code, b')) (hsites : Shaped shapes p.ip (blockSites c p body))
    (hend : shapes (p.ip + body.size) = some p.shape) (hc : ContextFits shapes p.shape c) :
    Flows shapes p.ip code := by
  match body with
  | .missing =>
    simp only [lowerBlock, Lower.pure_eq_ok] at h
    simp [h]
  | .mk stmts _ =>
    simp only [lowerBlock, Lower.bind_eq_ok, Lower.pure_eq_ok] at h
    obtain ⟨inside, b₁, h₁, rfl, rfl⟩ := h
    simp only [blockSites, Block.size, List.cons_append, List.nil_append, along_append, along_cons,
      along_nil, length_stmtsSites, and_true, ← Nat.add_assoc] at hsites hend
    obtain ⟨henter, hinside, hexit⟩ := hsites
    simp only [List.cons_append, List.nil_append, along_append, along_cons, along_nil,
      length_lowerStmts _ h₁, and_true]
    have hinner : ContextFits shapes (p.inner 1).shape c := hc.mono (Nat.le_succ _) (Nat.le_refl _)
    exact ⟨⟨_, henter, entry_stmts hinside hexit⟩, flows_lowerStmts stmts h₁ hinside hexit hinner,
      _, hexit, Nat.le_add_left .., hend⟩

theorem flows_lowerStmts {c : Context} {p : Spot} {code : Instructions} {b b' : Build}
    (stmts : List Stmt) (h : lowerStmts c p stmts b = .ok (code, b'))
    (hsites : Shaped shapes p.ip (stmtsSites c p stmts))
    (hend : shapes (p.ip + stmtsSize stmts) = some p.shape) (hc : ContextFits shapes p.shape c) :
    Flows shapes p.ip code := by
  match stmts with
  | [] =>
    simp only [lowerStmts, Lower.pure_eq_ok] at h
    simp [h]
  | s :: rest =>
    simp only [lowerStmts, Lower.bind_eq_ok, Lower.pure_eq_ok] at h
    obtain ⟨first, b₁, h₁, more, b₂, h₂, rfl, rfl⟩ := h
    simp only [stmtsSites, stmtsSize, along_append, length_stmtSites, ← Nat.add_assoc] at hsites hend
    obtain ⟨hfirst, hmore⟩ := hsites
    simp only [along_append, length_lowerStmt _ h₁]
    exact ⟨flows_lowerStmt s h₁ hfirst (entry_stmts (p := p.skip s.size) hmore hend) hc,
      flows_lowerStmts rest h₂ hmore hend hc⟩

theorem flows_lowerEach {c : Context} {point : Instruction} {site : Site} {p : Spot}
    {code : Instructions} {b b' : Build} (stmts : List Stmt)
    (h : lowerEach c point p stmts b = .ok (code, b'))
    (hsites : Shaped shapes p.ip (eachSites c site p stmts))
    (hend : shapes (p.ip + (stmtsSize stmts + stmts.length)) = some p.shape)
    (hc : ContextFits shapes p.shape c) (hsite : site.toShape = p.shape)
    (hpoint : ∀ ip, shapes (ip + 1) = some p.shape → OperationFits shapes ip p.shape point.op) :
    Flows shapes p.ip code := by
  match stmts with
  | [] =>
    simp only [lowerEach, Lower.pure_eq_ok] at h
    simp [h]
  | s :: rest =>
    simp only [lowerEach, Lower.bind_eq_ok, Lower.pure_eq_ok] at h
    obtain ⟨first, b₁, h₁, more, b₂, h₂, rfl, rfl⟩ := h
    simp only [eachSites, along_append, along_cons, along_nil, List.length_append, length_stmtSites,
      List.length_cons, List.length_nil, hsite, and_true, ← Nat.add_assoc] at hsites
    obtain ⟨⟨hfirst, hafter⟩, hmore⟩ := hsites
    have hlast : shapes (p.ip + s.size + 1 + (stmtsSize rest + rest.length)) = some p.shape := by
      have haddress : p.ip + s.size + 1 + (stmtsSize rest + rest.length) =
          p.ip + (stmtsSize (s :: rest) + (s :: rest).length) := by
        simp only [stmtsSize, List.length_cons]
        omega
      rw [haddress]
      exact hend
    have hnext : shapes (p.ip + s.size + 1) = some p.shape :=
      entry_each (p := p.skip (s.size + 1)) hsite hmore hlast
    simp only [along_append, along_cons, along_nil, List.length_append, length_lowerStmt _ h₁,
      List.length_cons, List.length_nil, and_true, ← Nat.add_assoc]
    -- Calls in the statement land on the dispatch point right after it.
    have hland : TargetFits shapes p.shape (p.skip s.size).target :=
      targetFits_spot hafter (Nat.le_refl _) (Nat.le_refl _)
    exact ⟨⟨flows_lowerStmt s h₁ hfirst hafter (hc.landingAt hland), _, hafter, hpoint _ hnext⟩,
      flows_lowerEach rest h₂ hmore hlast hc hsite hpoint⟩

theorem flows_lowerScope {c : Context} {mode : DispatchMode} {point : Instruction} {site : Site}
    {p : Spot} {code : Instructions} {b b' : Build} (body : Block)
    (h : lowerScope c mode point p body b = .ok (code, b'))
    (hsites : Shaped shapes p.ip (scopeSites c mode site p body))
    (hend : shapes (p.ip + body.scopeSize mode) = some p.shape)
    (hc : ContextFits shapes p.shape c) (hsite : site.toShape = p.shape)
    (hpoint : ∀ ip, shapes (ip + 1) = some p.shape → OperationFits shapes ip p.shape point.op) :
    Flows shapes p.ip code := by
  -- Without statements of its own a scope still has its one dispatch point.
  have halone : shapes p.ip = some p.shape → shapes (p.ip + 1) = some p.shape →
      Flows shapes p.ip [point] := fun hip hnext =>
    along_cons.mpr ⟨⟨_, hip, hpoint _ hnext⟩, along_nil⟩
  match body with
  | .missing =>
    simp only [lowerScope, Lower.pure_eq_ok] at h
    obtain ⟨rfl, rfl⟩ := h
    cases mode with
    | none => exact along_nil
    | loopEnd | perStatement => exact halone (entry_scope hsite hsites hend) hend
  | .mk stmts _ =>
    cases mode with
    | none =>
      simp only [lowerScope] at h
      exact flows_lowerStmts stmts h hsites hend hc
    | loopEnd =>
      simp only [lowerScope, Lower.bind_eq_ok, Lower.pure_eq_ok] at h
      obtain ⟨inside, b₁, h₁, rfl, rfl⟩ := h
      simp only [scopeSites, Block.scopeSize, along_append, along_cons, along_nil, length_stmtsSites,
        hsite, and_true, ← Nat.add_assoc] at hsites hend
      obtain ⟨hinside, hafter⟩ := hsites
      simp only [along_append, along_cons, along_nil, length_lowerStmts _ h₁, and_true]
      have hland : TargetFits shapes p.shape (p.skip (stmtsSize stmts)).target :=
        targetFits_spot hafter (Nat.le_refl _) (Nat.le_refl _)
      exact ⟨flows_lowerStmts stmts h₁ hinside hafter (hc.landingAt hland), _, hafter,
        hpoint _ hend⟩
    | perStatement =>
      simp only [lowerScope] at h
      cases hs : stmts.isEmpty with
      | true =>
        simp only [hs, if_true, Lower.pure_eq_ok] at h
        obtain ⟨rfl, rfl⟩ := h
        have hip := entry_scope hsite hsites hend
        simp only [Block.scopeSize, hs, if_true] at hend
        exact halone hip hend
      | false =>
        simp only [hs, Bool.false_eq_true, if_false] at h
        simp only [scopeSites, Block.scopeSize, hs, Bool.false_eq_true, if_false] at hsites hend
        exact flows_lowerEach stmts h hsites hend hc hsite hpoint

theorem flows_lowerClauses {c : Context} {stop : Nat} {p : Spot} {code : Instructions}
    {b b' : Build} (clauses : List Clause) (h : lowerClauses c stop p clauses b = .ok (code, b'))
    (hsites : Shaped shapes p.ip (clausesSites c p clauses))
    (hend : shapes (p.ip + clausesSize clauses) = some p.shape) (hstop : shapes stop = some p.shape)
    (hc : ContextFits shapes p.shape c) : Flows shapes p.ip code := by
  match clauses with
  | [] =>
    simp only [lowerClauses, Lower.pure_eq_ok] at h
    simp [h]
  | .mk test body :: rest =>
    simp only [lowerClauses, Lower.bind_eq_ok, Lower.pure_eq_ok] at h
    obtain ⟨first, b₁, h₁, inside, b₂, h₂, more, b₃, h₃, rfl, rfl⟩ := h
    simp only [clausesSites, clausesSize, Spot.skip, along_append, along_cons, along_nil,
      List.length_append, length_exprSites, length_blockSites, List.length_cons, List.length_nil,
      Nat.reduceAdd, and_true, ← Nat.add_assoc] at hsites hend
    obtain ⟨⟨⟨⟨htest, hbranch⟩, hinside⟩, hleave⟩, hmore⟩ := hsites
    simp only [Spot.skip, ← Nat.add_assoc] at h₂ h₃
    have honward := entry_clauses hmore hend
    have hthen := entry_block hinside hleave
    simp only [Spot.skip, along_append, along_cons, along_nil, List.length_append,
      length_lowerExpr _ h₁, length_lowerBlock _ h₂, List.length_cons, List.length_nil,
      Nat.reduceAdd, and_true, ← Nat.add_assoc]
    exact ⟨⟨⟨⟨flows_lowerExpr test h₁ htest hbranch hc.landing,
      _, hbranch, Nat.le_add_left .., hthen, honward⟩, flows_lowerBlock body h₂ hinside hleave hc⟩,
      _, hleave, hstop⟩, flows_lowerClauses rest h₃ hmore hend hstop hc⟩

end

end KestrelLang.Code
