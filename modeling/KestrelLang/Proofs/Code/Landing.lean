import KestrelLang.Proofs.Code.Units

/-! # Landings and the dispatch points behind them

* `Chain` — the dispatch points that a marker meets on its way out of a nest of scopes.
* `ExprOperation` — the code of an expression holds no verb, no tail call and no dispatch point, and its
  calls land where its context says.
* `Linked` — a call or a verb stands at the head of the chain of the scopes around it.
* `links_lowerStmts` — all calls and verbs of lowered code are linked. -/

namespace KestrelLang.Code

open KestrelLang.Label

/-! ## Chains -/

/-- The table of the dispatch points of a scope. -/
def OpenScope.table (o : OpenScope) (onward : JumpTarget) : DispatchTable :=
  ⟨o.label, if o.label = "" then none else some o.targets, onward⟩

/-- A marker that lands on the target meets, one after the other, dispatch points of the scopes, the
    innermost first, and then leaves the frame. Scopes without a label may have no point. -/
inductive Chain (code : Array Instruction) : JumpTarget → List OpenScope → Prop
  | exit : Chain code .exit []
  | silent {o : OpenScope} {target : JumpTarget} {rest : List OpenScope} :
    o.label = "" → Chain code target rest → Chain code target (o :: rest)
  | point {ip scopes iters : Nat} {i : Instruction} {o : OpenScope} {onward : JumpTarget}
      {rest : List OpenScope} :
    code[ip]? = some i → i.op = .dispatch (o.table onward) → Chain code onward rest →
      Chain code (.to ip scopes iters) (o :: rest)

/-- A chain begins outside the frame or at a dispatch point, from where a chain goes on. -/
theorem Chain.head {code : Array Instruction} {target : JumpTarget} {around : List OpenScope}
    (h : Chain code target around) :
    target = .exit ∨ ∃ ip scopes iters i o onward rest, target = .to ip scopes iters ∧
      code[ip]? = some i ∧ i.op = .dispatch (OpenScope.table o onward) ∧ Chain code onward rest := by
  induction h with
  | exit => exact .inl rfl
  | silent _ _ ih => exact ih
  | point hi hop hrest => exact .inr ⟨_, _, _, _, _, _, _, rfl, hi, hop, hrest⟩

/-! ## Expressions -/

/-- An operation of the code of an expression; `calls` says whether the expression holds a call. -/
def ExprOperation (landing : JumpTarget) (calls : Bool) : Operation CodeUnit → Prop
  | .call _ _ target => calls = true ∧ target = landing
  | .makeSub u => Lowered u
  | .jump _ | .signal _ | .dispatch _ | .tailCall .. => False
  | _ => True

theorem ExprOperation.mono {landing : JumpTarget} {calls q : Bool} {op : Operation CodeUnit}
    (h : ExprOperation landing calls op) (himp : calls = true → q = true) :
    ExprOperation landing q op := by
  cases op with
  | call callee count target => exact ⟨himp h.1, h.2⟩
  | _ => exact h

mutual

theorem operations_lowerExpr {c : Context} {p : Spot} {code : Instructions} {b b' : Build} (e : Expr)
    (h : lowerExpr c p e b = .ok (code, b')) :
    ∀ i ∈ code, ExprOperation c.landing e.hasCall i.op := by
  match e with
  | .missing | .undefined _ | .int .. | .float .. | .str .. | .ident .. =>
    simp only [lowerExpr, Lower.pure_eq_ok] at h
    obtain ⟨rfl, rfl⟩ := h
    simp only [List.forall_mem_singleton]
    trivial
  | .array elements _ =>
    simp only [lowerExpr, Lower.bind_eq_ok, Lower.pure_eq_ok] at h
    obtain ⟨values, b₁, h₁, rfl, rfl⟩ := h
    simp only [List.forall_mem_append, List.forall_mem_singleton]
    exact ⟨operations_lowerExprs elements h₁, trivial⟩
  | .index object index _ =>
    simp only [lowerExpr, Lower.bind_eq_ok, Lower.pure_eq_ok] at h
    obtain ⟨first, b₁, h₁, second, b₂, h₂, rfl, rfl⟩ := h
    simp only [List.forall_mem_append, List.forall_mem_singleton]
    exact ⟨⟨fun i hi => (operations_lowerExpr object h₁ i hi).mono (by simp_all [Expr.hasCall]),
      fun i hi => (operations_lowerExpr index h₂ i hi).mono (by simp_all [Expr.hasCall])⟩, trivial⟩
  | .unary _ operand _ =>
    simp only [lowerExpr, Lower.bind_eq_ok, Lower.pure_eq_ok] at h
    obtain ⟨value, b₁, h₁, rfl, rfl⟩ := h
    simp only [List.forall_mem_append, List.forall_mem_singleton]
    exact ⟨operations_lowerExpr operand h₁, trivial⟩
  -- An operand says less about calls than the whole does, so what its operations are allowed is widened first.
  | .binary op left right _ =>
    obtain ⟨first, b₁, second, test, h₁, h₂, hop, rfl⟩ | ⟨-, -, first, b₁, second, h₁, h₂, rfl⟩ :=
      lowerExpr_binary h
    all_goals
      have hleft := fun i hi => (operations_lowerExpr left h₁ i hi).mono
        (q := left.hasCall || right.hasCall) (by simp_all)
      have hright := fun i hi => (operations_lowerExpr right h₂ i hi).mono
        (q := left.hasCall || right.hasCall) (by simp_all)
      simp only [List.forall_mem_append, List.forall_mem_cons, List.not_mem_nil, false_implies,
        implies_true, and_true, Expr.hasCall]
    · refine ⟨⟨hleft, trivial, ?_, trivial⟩, hright⟩
      rcases hop with ⟨-, rfl⟩ | ⟨-, rfl⟩ <;> trivial
    · exact ⟨⟨hleft, hright⟩, trivial⟩
  | .assign op left right _ =>
    match left with
    | .ident name place =>
      obtain ⟨value, h₁, rfl⟩ := lowerExpr_assignName h
      have hright := fun i hi => (operations_lowerExpr right h₁ i hi).mono
        (q := (Expr.ident name place).hasCall || right.hasCall) (by simp_all)
      simp only [nameAssignment, Expr.hasCall]
      cases op.binary? <;> simp only [List.forall_mem_append, List.forall_mem_singleton]
      · exact ⟨hright, by split <;> trivial⟩
      · exact ⟨⟨⟨trivial, hright⟩, trivial⟩, by split <;> trivial⟩
    | .index object index place =>
      obtain ⟨first, b₁, second, b₂, value, h₁, h₂, h₃, rfl⟩ := lowerExpr_assignElement h
      have hobject := fun i hi => (operations_lowerExpr object h₁ i hi).mono
        (q := (Expr.index object index place).hasCall || right.hasCall)
        (by simp_all [Expr.hasCall])
      have hindex := fun i hi => (operations_lowerExpr index h₂ i hi).mono
        (q := (Expr.index object index place).hasCall || right.hasCall)
        (by simp_all [Expr.hasCall])
      have hright := fun i hi => (operations_lowerExpr right h₃ i hi).mono
        (q := (Expr.index object index place).hasCall || right.hasCall) (by simp_all)
      simp only [elementAssignment, Expr.hasCall] at hobject hindex hright ⊢
      cases op.binary? <;> simp only [List.forall_mem_append, List.forall_mem_cons,
        List.not_mem_nil, false_implies, implies_true, and_true]
      · exact ⟨⟨hobject, hindex⟩, hright, trivial⟩
      · exact ⟨⟨hobject, hindex⟩, ⟨⟨⟨trivial, trivial⟩, hright⟩, trivial⟩, trivial⟩
    | .missing | .str .. | .int .. | .float .. | .undefined _ | .array .. | .unary .. | .binary ..
    | .assign .. | .call .. | .closure .. => exact absurd h (lowerExpr_assignOther nofun nofun)
  | .call callee args _ =>
    simp only [lowerExpr, Lower.bind_eq_ok, Lower.pure_eq_ok] at h
    obtain ⟨first, b₁, h₁, second, b₂, h₂, rfl, rfl⟩ := h
    simp only [List.forall_mem_append, List.forall_mem_singleton]
    exact ⟨⟨fun i hi => (operations_lowerExpr callee h₁ i hi).mono fun _ => rfl,
      fun i hi => (operations_lowerExprs args h₂ i hi).mono fun _ => rfl⟩, rfl, rfl⟩
  | .closure params body _ =>
    simp only [lowerExpr, Lower.bind_eq_ok, Lower.pure_eq_ok] at h
    obtain ⟨u, b₁, h₁, _, b₂, _, rfl, rfl⟩ := h
    simp only [List.forall_mem_singleton]
    exact ⟨_, codeOf_lowerBody h₁⟩

theorem operations_lowerExprs {c : Context} {p : Spot} {code : Instructions} {b b' : Build}
    (es : List Expr) (h : lowerExprs c p es b = .ok (code, b')) :
    ∀ i ∈ code, ExprOperation c.landing (exprsHaveCall es) i.op := by
  match es with
  | [] =>
    simp only [lowerExprs, Lower.pure_eq_ok] at h
    simp [h]
  | e :: es =>
    simp only [lowerExprs, Lower.bind_eq_ok, Lower.pure_eq_ok] at h
    obtain ⟨first, b₁, h₁, rest, b₂, h₂, rfl, rfl⟩ := h
    simp only [List.forall_mem_append]
    exact ⟨fun i hi => (operations_lowerExpr e h₁ i hi).mono (by simp_all [exprsHaveCall]),
      fun i hi => (operations_lowerExprs es h₂ i hi).mono (by simp_all [exprsHaveCall])⟩

end

theorem around_siteIf {s t : Site} (q : Bool) (h : t.landing = s.landing ∧ t.around = s.around) :
    ∀ t' ∈ siteIf q t, t'.landing = s.landing ∧ t'.around = s.around := by
  cases q <;> simp [siteIf, h]

mutual

theorem around_exprSites {s : Site} (e : Expr) :
    ∀ t ∈ exprSites s e, t.landing = s.landing ∧ t.around = s.around := by
  match e with
  | .missing | .undefined _ | .int .. | .float .. | .str .. | .ident .. | .closure .. =>
    simp [exprSites]
  | .array elements _ =>
    simp only [exprSites, List.forall_mem_append, List.forall_mem_singleton]
    exact ⟨around_exprsSites elements, rfl, rfl⟩
  | .index object index _ =>
    simp only [exprSites, List.forall_mem_append, List.forall_mem_singleton]
    exact ⟨⟨around_exprSites object, around_exprSites (s := s.up 1) index⟩, rfl, rfl⟩
  | .unary _ operand _ =>
    simp only [exprSites, List.forall_mem_append, List.forall_mem_singleton]
    exact ⟨around_exprSites operand, rfl, rfl⟩
  | .binary op left right _ =>
    have hleft := around_exprSites (s := s) left
    have hright := around_exprSites (s := s) right
    have hright₁ := around_exprSites (s := s.up 1) right
    cases op <;> simp only [exprSites, List.forall_mem_append, List.forall_mem_cons,
      List.not_mem_nil, false_implies, implies_true, and_true]
    -- The operators that short-circuit have three instructions between the operands.
    all_goals first
      | exact ⟨⟨hleft, hright₁⟩, rfl, rfl⟩
      | exact ⟨⟨hleft, ⟨rfl, rfl⟩, ⟨rfl, rfl⟩, rfl, rfl⟩, hright⟩
  | .assign op (.index object index _) right _ =>
    have hpair : ∀ t ∈ (if op.binary?.isSome then [s.up 2, s.up 4] else []),
        t.landing = s.landing ∧ t.around = s.around := by
      split <;> simp [Site.up]
    simp only [exprSites, List.forall_mem_append, List.forall_mem_singleton]
    exact ⟨⟨⟨⟨⟨around_exprSites object, around_exprSites (s := s.up 1) index⟩, hpair⟩,
      around_exprSites (s := s.up _) right⟩, around_siteIf _ ⟨rfl, rfl⟩⟩, rfl, rfl⟩
  | .assign op .missing right _ | .assign op (.ident ..) right _ | .assign op (.str ..) right _
  | .assign op (.int ..) right _ | .assign op (.float ..) right _
  | .assign op (.undefined _) right _ | .assign op (.array ..) right _
  | .assign op (.unary ..) right _ | .assign op (.binary ..) right _
  | .assign op (.assign ..) right _ | .assign op (.call ..) right _
  | .assign op (.closure ..) right _ =>
    simp only [exprSites, List.forall_mem_append, List.forall_mem_singleton]
    exact ⟨⟨⟨around_siteIf _ ⟨rfl, rfl⟩, around_exprSites (s := s.up _) right⟩,
      around_siteIf _ ⟨rfl, rfl⟩⟩, rfl, rfl⟩
  | .call callee args _ =>
    simp only [exprSites, List.forall_mem_append, List.forall_mem_singleton]
    exact ⟨⟨around_exprSites callee, around_exprsSites (s := s.up 1) args⟩, rfl, rfl⟩

theorem around_exprsSites {s : Site} (es : List Expr) :
    ∀ t ∈ exprsSites s es, t.landing = s.landing ∧ t.around = s.around := by
  match es with
  | [] => simp [exprsSites]
  | e :: es =>
    simp only [exprsSites, List.forall_mem_append]
    exact ⟨around_exprSites e, around_exprsSites (s := s.up 1) es⟩

end

/-! ## Links -/

/-- What is known about an operation at the site `s`: a call lands where the chain of the scopes around
    it begins, a call in place of a verb would do so too, in a frame in which the landing is at home, and a
    closure was lowered. -/
def Linked (code : Array Instruction) (sites : Nat → Option Site) (s : Site) :
    Operation CodeUnit → Prop
  | .call _ _ landing => landing = s.landing ∧ Chain code s.landing s.around
  | .makeSub u => Lowered u
  | .jump _ | .signal _ =>
    Chain code s.landing s.around ∧ TargetFits (shapesOf sites) s.toShape s.landing
  | _ => True

/-- The instructions of `part`, which stand at `pos`, are linked at their sites. -/
abbrev Links (code : Array Instruction) (sites : Nat → Option Site) (pos : Nat) (part : Instructions) :
    Prop :=
  Along (fun ip i => ∃ s, sites ip = some s ∧ Linked code sites s i.op) pos part

section Pieces

variable {code : Array Instruction} {sites : Nat → Option Site} {pos : Nat} {part : Instructions}
  {s : Site}

theorem links_of_operations {list : List Site} {landing : JumpTarget} {calls : Bool}
    (hops : ∀ i ∈ part, ExprOperation landing calls i.op)
    (haround : ∀ t ∈ list, t.landing = s.landing ∧ t.around = s.around)
    (hlength : part.length = list.length) (hsites : LiesAt sites pos list)
    (hland : landing = s.landing) (hchain : calls = true → Chain code s.landing s.around) :
    Links code sites pos part := by
  intro k i hi
  obtain ⟨hk, rfl⟩ := List.getElem?_eq_some_iff.mp hi
  have hk' : k < list.length := hlength ▸ hk
  refine ⟨list[k], hsites k _ (List.getElem?_eq_getElem hk'), ?_⟩
  -- All sites of an expression share the landing and the scopes of the site it begins at.
  have hop := hops part[k] (List.getElem_mem hk)
  obtain ⟨htland, htaround⟩ := haround list[k] (List.getElem_mem hk')
  unfold Linked
  rw [htland, htaround]
  cases h : part[k].op <;> rw [h] at hop
  case call callee count target => exact ⟨hop.2.trans hland, hchain hop.1⟩
  case makeSub u => exact hop
  case jump | signal => exact hop.elim
  all_goals trivial

theorem links_lowerExpr {c : Context} {p : Spot} {b b' : Build} {e : Expr}
    (h : lowerExpr c p e b = .ok (part, b')) (hsites : LiesAt sites pos (exprSites s e))
    (hland : c.landing = s.landing) (hchain : e.hasCall = true → Chain code s.landing s.around) :
    Links code sites pos part :=
  links_of_operations (operations_lowerExpr e h) (around_exprSites e)
    (by rw [length_lowerExpr e h, length_exprSites]) hsites hland hchain

theorem links_lowerExprs {c : Context} {p : Spot} {b b' : Build} {es : List Expr}
    (h : lowerExprs c p es b = .ok (part, b')) (hsites : LiesAt sites pos (exprsSites s es))
    (hland : c.landing = s.landing) (hchain : Chain code s.landing s.around) :
    Links code sites pos part :=
  links_of_operations (operations_lowerExprs es h) (around_exprsSites es)
    (by rw [length_lowerExprs es h, length_exprsSites]) hsites hland fun _ => hchain

theorem links_lowerOptional {c : Context} {p : Spot} {b b' : Build} {e : Expr}
    {last : Operation CodeUnit} (h : lowerOptional c p e last b = .ok (part, b'))
    (hsites : LiesAt sites pos (optionalSites s e)) (hland : c.landing = s.landing)
    (hchain : e.hasCall = true → Chain code s.landing s.around)
    (hlast : Linked code sites (s.up 1) last) : Links code sites pos part := by
  obtain ⟨rfl, rfl, rfl⟩ | ⟨hm, value, h₁, rfl⟩ := lowerOptional_eq_ok h
  · exact along_nil
  · simp only [optionalSites_eq hm, along_append, along_cons, along_nil, length_exprSites,
      and_true] at hsites
    simp only [along_append, along_cons, along_nil, length_lowerExpr _ h₁, and_true]
    exact ⟨links_lowerExpr h₁ hsites.1 hland hchain, _, hsites.2, hlast⟩

theorem links_lowerInit {c : Context} {p : Spot} {b b' : Build} {init : Stmt}
    (h : lowerInit c p init b = .ok (part, b')) (hsites : LiesAt sites pos (initSites s init))
    (hland : c.landing = s.landing)
    (hchain : initHasCall init = true → Chain code s.landing s.around) :
    Links code sites pos part := by
  obtain ⟨rfl, rfl, rfl⟩ | ⟨e, value, rfl, h₁, rfl⟩ := lowerInit_eq_ok h
  · exact along_nil
  · simp only [initSites, along_append, along_cons, along_nil, length_exprSites, and_true] at hsites
    simp only [along_append, along_cons, along_nil, length_lowerExpr _ h₁, and_true]
    exact ⟨links_lowerExpr h₁ hsites.1 hland hchain, _, hsites.2, trivial⟩

theorem links_onlyIf {q : Bool} {i : Instruction} (hsites : LiesAt sites pos (siteIf q s))
    (hi : Linked code sites s i.op) : Links code sites pos (if q then [i] else []) := by
  cases q with
  | false => exact along_nil
  | true => exact along_cons.mpr ⟨⟨s, (along_cons.mp hsites).1, hi⟩, along_nil⟩

theorem fits_point {p : Spot} {n : Nat} (hs : s.toShape = p.shape) (h : sites (p.ip + n) = some s) :
    TargetFits (shapesOf sites) p.shape (p.skip n).target :=
  ⟨Nat.le_refl _, Nat.le_refl _, (shapesOf_eq h).trans (congrArg some hs)⟩

theorem modeOf_eq_none {label : String} {isLoop : Bool} (h : modeOf label isLoop = .none) :
    label = "" := by
  unfold modeOf at h
  split at h
  · cases h
  · simp_all

/-- The chain of the header of a loop: a labeled loop whose header holds a call has a dispatch point
    for it, and a loop without a label needs none. -/
theorem chain_header {c : Context} {label : Option Name} {hasCall : Bool} {q : Spot}
    {k : Continuations} {span : Span} (hcall : hasCall = true)
    (hchain : Chain code c.landing c.enclosing)
    (hpoint : LiesAt (code[·]?) q.ip
      (if headerDispatch label hasCall then [dispatchPoint label k c.landing span] else [])) :
    Chain code ((headerContext c label hasCall q.target).enter label true k).landing
      ((headerContext c label hasCall q.target).enter label true k).enclosing := by
  -- Only a label and a call together make a dispatch point, so without one there is no label.
  cases hd : headerDispatch label hasCall with
  | true =>
    simp only [hd, if_true, along_cons] at hpoint
    simp only [headerContext, hd, if_true]
    exact .point hpoint.1 rfl hchain
  | false =>
    have hlabel : labelText label = "" := by simpa [headerDispatch, hcall] using hd
    simp only [headerContext, hd, Bool.false_eq_true, if_false]
    exact .silent hlabel hchain

end Pieces

mutual

theorem links_lowerStmt {code : Array Instruction} {sites : Nat → Option Site} {c : Context} {p : Spot}
    {part : Instructions} {b b' : Build} (s : Stmt) (h : lowerStmt c p s b = .ok (part, b'))
    (hcode : LiesAt (code[·]?) p.ip part) (hsites : LiesAt sites p.ip (stmtSites c p s))
    (hchain : Chain code c.landing c.enclosing)
    (hhome : TargetFits (shapesOf sites) p.shape c.landing) : Links code sites p.ip part := by
  match s with
  | .missing =>
    simp only [lowerStmt, Lower.pure_eq_ok] at h
    simp [h]
  | .expr e =>
    simp only [lowerStmt, Lower.bind_eq_ok, Lower.pure_eq_ok] at h
    obtain ⟨value, b₁, h₁, rfl, rfl⟩ := h
    simp only [stmtSites, along_append, along_cons, along_nil, length_exprSites, and_true] at hsites
    simp only [along_append, along_cons, along_nil, length_lowerExpr _ h₁, and_true]
    refine ⟨links_lowerExpr h₁ hsites.1 rfl fun _ => hchain, _, hsites.2, ?_⟩
    split <;> trivial
  | .block body =>
    simp only [lowerStmt] at h
    simp only [stmtSites] at hsites
    exact links_lowerBlock body h hcode hsites hchain hhome
  | .verb kind label span =>
    simp only [lowerStmt] at h
    simp only [stmtSites, along_cons, along_nil, and_true] at hsites
    cases hk : MarkerKind.ofVerb? kind with
    | none => simp [hk] at h
    | some marker =>
      simp only [hk, Lower.pure_eq_ok] at h
      obtain ⟨rfl, rfl⟩ := h
      simp only [along_cons, along_nil, and_true]
      refine ⟨_, hsites, ?_⟩
      -- Nothing here depends on whether the verb is local: the chain is that of a call in its place.
      unfold verbInstr
      split <;> exact ⟨hchain, hhome⟩
  | .tailCall callee args reuse _ =>
    cases reuse <;> simp only [lowerStmt, Lower.bind_eq_ok, Lower.pure_eq_ok, if_true, if_false,
      Bool.false_eq_true] at h
    · obtain ⟨first, b₁, h₁, second, b₂, h₂, rfl, rfl⟩ := h
      simp only [stmtSites, Bool.false_eq_true, if_false, along_append, along_cons, along_nil,
        List.length_append, length_exprSites, length_exprsSites, and_true] at hsites
      obtain ⟨⟨hcallee, hargs⟩, hcall⟩ := hsites
      simp only [along_append, along_cons, along_nil, List.length_append, length_lowerExpr _ h₁,
        length_lowerExprs _ h₂, and_true]
      exact ⟨⟨links_lowerExpr h₁ hcallee rfl fun _ => hchain, links_lowerExprs h₂ hargs rfl hchain⟩,
        _, hcall, trivial⟩
    · obtain ⟨first, b₁, h₁, second, b₂, ⟨rfl, rfl⟩, rfl, rfl⟩ := h
      simp only [stmtSites, if_true, List.append_nil, along_append, along_cons, along_nil,
        length_exprSites, and_true] at hsites
      simp only [List.append_nil, along_append, along_cons, along_nil, length_lowerExpr _ h₁, and_true]
      exact ⟨links_lowerExpr h₁ hsites.1 rfl fun _ => hchain, _, hsites.2, trivial⟩
  | .ret argument _ =>
    simp only [lowerStmt, Lower.bind_eq_ok, Lower.pure_eq_ok] at h
    obtain ⟨value, b₁, h₁, rfl, rfl⟩ := h
    simp only [stmtSites, along_append, along_cons, along_nil, length_exprSites, and_true] at hsites
    simp only [along_append, along_cons, along_nil, length_lowerExpr _ h₁, and_true]
    exact ⟨links_lowerExpr h₁ hsites.1 rfl fun _ => hchain, _, hsites.2, trivial⟩
  | .sub name params body _ =>
    simp only [lowerStmt, Lower.bind_eq_ok, Lower.pure_eq_ok] at h
    obtain ⟨_, b₁, _, unit, b₂, _, _, b₃, _, rfl, rfl⟩ := h
    exact along_nil
  | .bare label body span =>
    simp only [lowerStmt, Lower.bind_eq_ok, Lower.pure_eq_ok] at h
    obtain ⟨inside, b₁, h₁, rfl, rfl⟩ := h
    simp only [stmtSites, List.cons_append, List.nil_append, along_append, along_cons, along_nil,
      length_scopeSites, length_lowerScope _ _ h₁, and_true] at hsites hcode ⊢
    obtain ⟨henter, hinside, hexit⟩ := hsites
    exact ⟨⟨_, henter, trivial⟩,
      links_lowerScope body h₁ hcode.2.1 hinside rfl rfl rfl hchain
        (hhome.mono (Nat.le_succ _) (Nat.le_refl _)) modeOf_eq_none,
      _, hexit, trivial⟩
  | .whileLoop label test negate body span =>
    simp only [lowerStmt, Lower.bind_eq_ok, Lower.pure_eq_ok] at h
    obtain ⟨first, b₁, h₁, inside, b₂, h₂, rfl, rfl⟩ := h
    simp only [stmtSites, along_append, along_cons, along_nil, List.length_append,
      length_exprSites, length_siteIf, length_scopeSites, List.length_cons, List.length_nil,
      length_lowerExpr _ h₁, length_negation, length_lowerScope _ _ h₂,
      Nat.reduceAdd, and_true, ← Nat.add_assoc] at hsites hcode ⊢
    obtain ⟨⟨⟨⟨⟨htest, hnot⟩, hbranch, henter⟩, hinside⟩, hexit, hback⟩, hdispatch⟩ := hsites
    obtain ⟨⟨⟨-, hbody⟩, -⟩, hpoint⟩ := hcode
    have hscope := links_lowerScope body h₂ (ip_whileRound_inner p test negate ▸ hbody)
      (ip_whileRound_inner p test negate ▸ hinside) rfl rfl rfl hchain
      (hhome.mono (Nat.le_succ _) (Nat.le_refl _)) modeOf_eq_none
    rw [ip_whileRound_inner] at hscope
    -- The test counts as inside the loop, but its chain begins at the point of the header.
    have hheader := fun hcall => chain_header hcall hchain
      (ip_whileHeaderEnd p label test negate body ▸ hpoint)
    exact ⟨⟨⟨⟨⟨⟨links_lowerExpr h₁ htest rfl hheader, links_onlyIf hnot trivial⟩, _, hbranch, trivial⟩,
      _, henter, trivial⟩, hscope⟩, ⟨_, hexit, trivial⟩, _, hback, trivial⟩,
      links_onlyIf hdispatch trivial⟩
  | .forLoop label init test step body span =>
    simp only [lowerStmt_forLoop, Lower.bind_eq_ok, Lower.pure_eq_ok] at h
    obtain ⟨first, b₁, h₁, second, b₂, h₂, inside, b₃, h₃, third, b₄, h₄, rfl, rfl⟩ := h
    simp only [stmtSites, along_append, along_cons, along_nil, List.length_append,
      length_initSites, length_optionalSites, length_siteIf, length_scopeSites, List.length_cons,
      List.length_nil, length_lowerInit h₁, length_lowerOptional h₂, length_lowerScope _ _ h₃,
      length_lowerOptional h₄, length_ite_singleton, Nat.reduceAdd, and_true,
      ← Nat.add_assoc] at hsites hcode ⊢
    obtain ⟨⟨⟨⟨⟨⟨⟨⟨⟨henter, hinit⟩, htest⟩, hopen⟩, hinside⟩, hexit⟩, hstep⟩, hback⟩, hdispatch⟩,
      hclose⟩ := hsites
    obtain ⟨⟨⟨⟨⟨⟨⟨-, -⟩, hbody⟩, -⟩, -⟩, -⟩, hpoint⟩, -⟩ := hcode
    have hscope := links_lowerScope body h₃ (ip_forRound_inner p init test ▸ hbody)
      (ip_forRound_inner p init test ▸ hinside) rfl rfl rfl hchain
      (hhome.mono (Nat.le_add_right _ 2) (Nat.le_refl _)) modeOf_eq_none
    rw [ip_forRound_inner] at hscope
    -- One point serves all three parts of the header.
    have hheader := fun hcall => chain_header hcall hchain
      (ip_forHeaderEnd p label init test step body ▸ hpoint)
    have hfirst := links_lowerInit h₁ hinit rfl fun hcall => hheader (by simp [forHasCall, hcall])
    have hsecond := links_lowerOptional h₂ htest rfl
      (fun hcall => hheader (by simp [forHasCall, hcall])) trivial
    have hthird := links_lowerOptional h₄ hstep rfl
      (fun hcall => hheader (by simp [forHasCall, hcall])) trivial
    exact ⟨⟨⟨⟨⟨⟨⟨⟨⟨⟨_, henter, trivial⟩, hfirst⟩, hsecond⟩, _, hopen, trivial⟩, hscope⟩,
      _, hexit, trivial⟩, hthird⟩, _, hback, trivial⟩, links_onlyIf hdispatch trivial⟩,
      _, hclose, trivial⟩
  | .foreachLoop label item iterable body span =>
    simp only [lowerStmt, Lower.bind_eq_ok, Lower.pure_eq_ok] at h
    obtain ⟨first, b₁, h₁, inside, b₂, h₂, rfl, rfl⟩ := h
    simp only [stmtSites, along_append, along_cons, along_nil, List.length_append,
      length_exprSites, length_scopeSites, length_lowerExpr _ h₁, length_lowerScope _ _ h₂,
      List.length_cons, List.length_nil, Nat.reduceAdd, and_true, ← Nat.add_assoc] at hsites hcode ⊢
    obtain ⟨⟨⟨hiterable, hinit, hnext, henter, hbind⟩, hinside⟩, hexit, hback, hpop⟩ := hsites
    have hscope := links_lowerScope (p := (foreachNext p iterable).inner 3) body h₂ hcode.1.2 hinside
      rfl rfl rfl hchain (hhome.mono (Nat.le_succ _) (Nat.le_succ _)) modeOf_eq_none
    -- The value that is walked over counts as outside the loop, so its calls pass the loop by.
    exact ⟨⟨⟨⟨links_lowerExpr h₁ hiterable rfl fun _ => hchain, ⟨_, hinit, trivial⟩,
      _, hnext, trivial⟩, ⟨_, henter, trivial⟩, _, hbind, trivial⟩, hscope⟩, ⟨_, hexit, trivial⟩,
      ⟨_, hback, trivial⟩, _, hpop, trivial⟩
  | .ifChain test negate body clauses otherwise span =>
    simp only [lowerStmt, Lower.bind_eq_ok, Lower.pure_eq_ok] at h
    obtain ⟨first, b₁, h₁, inside, b₂, h₂, more, b₃, h₃, last, b₄, h₄, rfl, rfl⟩ := h
    simp only [Spot.skip, ← Nat.add_assoc] at h₂ h₃ h₄
    simp only [stmtSites, Spot.skip, along_append, along_cons, along_nil,
      List.length_append, length_exprSites, length_siteIf, length_blockSites, length_clausesSites,
      length_lowerExpr _ h₁, length_negation, length_lowerBlock _ h₂, length_lowerClauses _ h₃,
      List.length_cons, List.length_nil, Nat.reduceAdd, and_true, ← Nat.add_assoc] at hsites hcode ⊢
    obtain ⟨⟨⟨⟨⟨⟨htest, hnot⟩, hbranch⟩, hinside⟩, hleave⟩, hmore⟩, hlast⟩ := hsites
    obtain ⟨⟨⟨⟨-, hbody⟩, -⟩, hclauses⟩, helse⟩ := hcode
    exact ⟨⟨⟨⟨⟨⟨links_lowerExpr h₁ htest rfl fun _ => hchain, links_onlyIf hnot trivial⟩,
      _, hbranch, trivial⟩, links_lowerBlock body h₂ hbody hinside hchain hhome⟩, _, hleave, trivial⟩,
      links_lowerClauses clauses h₃ hclauses hmore hchain hhome⟩,
      links_lowerBlock otherwise h₄ helse hlast hchain hhome⟩

theorem links_lowerBlock {code : Array Instruction} {sites : Nat → Option Site} {c : Context}
    {p : Spot} {part : Instructions} {b b' : Build} (body : Block)
    (h : lowerBlock c p body b = .ok (part, b')) (hcode : LiesAt (code[·]?) p.ip part)
    (hsites : LiesAt sites p.ip (blockSites c p body))
    (hchain : Chain code c.landing c.enclosing)
    (hhome : TargetFits (shapesOf sites) p.shape c.landing) : Links code sites p.ip part := by
  match body with
  | .missing =>
    simp only [lowerBlock, Lower.pure_eq_ok] at h
    simp [h]
  | .mk stmts _ =>
    simp only [lowerBlock, Lower.bind_eq_ok, Lower.pure_eq_ok] at h
    obtain ⟨inside, b₁, h₁, rfl, rfl⟩ := h
    simp only [blockSites, List.cons_append, List.nil_append, along_append, along_cons, along_nil,
      length_stmtsSites, length_lowerStmts _ h₁, and_true] at hsites hcode ⊢
    exact ⟨⟨_, hsites.1, trivial⟩,
      links_lowerStmts (p := p.inner 1) stmts h₁ hcode.2.1 hsites.2.1 hchain
        (hhome.mono (Nat.le_succ _) (Nat.le_refl _)),
      _, hsites.2.2, trivial⟩

theorem links_lowerStmts {code : Array Instruction} {sites : Nat → Option Site} {c : Context}
    {p : Spot} {part : Instructions} {b b' : Build} (stmts : List Stmt)
    (h : lowerStmts c p stmts b = .ok (part, b')) (hcode : LiesAt (code[·]?) p.ip part)
    (hsites : LiesAt sites p.ip (stmtsSites c p stmts))
    (hchain : Chain code c.landing c.enclosing)
    (hhome : TargetFits (shapesOf sites) p.shape c.landing) : Links code sites p.ip part := by
  match stmts with
  | [] =>
    simp only [lowerStmts, Lower.pure_eq_ok] at h
    simp [h]
  | s :: rest =>
    simp only [lowerStmts, Lower.bind_eq_ok, Lower.pure_eq_ok] at h
    obtain ⟨first, b₁, h₁, more, b₂, h₂, rfl, rfl⟩ := h
    simp only [stmtsSites, along_append, length_stmtSites, length_lowerStmt _ h₁] at hsites hcode ⊢
    exact ⟨links_lowerStmt s h₁ hcode.1 hsites.1 hchain hhome,
      links_lowerStmts (p := p.skip s.size) rest h₂ hcode.2 hsites.2 hchain hhome⟩

theorem links_lowerEach {code : Array Instruction} {sites : Nat → Option Site} {c : Context}
    {point : Instruction} {site : Site} {o : OpenScope} {around : List OpenScope} {p : Spot}
    {part : Instructions} {b b' : Build} (stmts : List Stmt)
    (h : lowerEach c point p stmts b = .ok (part, b')) (hcode : LiesAt (code[·]?) p.ip part)
    (hsites : LiesAt sites p.ip (eachSites c site p stmts)) (hsite : site.toShape = p.shape)
    (hc : c.enclosing = o :: around)
    (hpoint : point.op = .dispatch (o.table c.landing)) (hchain : Chain code c.landing around) :
    Links code sites p.ip part := by
  match stmts with
  | [] =>
    simp only [lowerEach, Lower.pure_eq_ok] at h
    simp [h]
  | s :: rest =>
    simp only [lowerEach, Lower.bind_eq_ok, Lower.pure_eq_ok] at h
    obtain ⟨first, b₁, h₁, more, b₂, h₂, rfl, rfl⟩ := h
    simp only [eachSites, along_append, along_cons, along_nil, List.length_append, length_stmtSites,
      length_lowerStmt _ h₁, List.length_cons, List.length_nil, and_true,
      ← Nat.add_assoc] at hsites hcode ⊢
    obtain ⟨⟨hfirst, hafter⟩, hmore⟩ := hsites
    obtain ⟨⟨hcfirst, hcpoint⟩, hcmore⟩ := hcode
    -- The next dispatch point passes on to where the scope itself was landed at.
    have hnext : Chain code (p.skip s.size).target c.enclosing := by
      rw [hc]
      exact .point hcpoint hpoint hchain
    refine ⟨⟨links_lowerStmt s h₁ hcfirst hfirst hnext (fits_point hsite hafter), _, hafter, ?_⟩,
      links_lowerEach (p := p.skip (s.size + 1)) rest h₂ hcmore hmore hsite hc hpoint hchain⟩
    rw [hpoint]
    trivial

/-- The calls and verbs in the body of a scope are linked. Their chain begins with the next dispatch
    point of the scope, if it has any. -/
theorem links_lowerScope {code : Array Instruction} {sites : Nat → Option Site} {c : Context}
    {mode : DispatchMode} {point : Instruction} {site : Site} {o : OpenScope}
    {around : List OpenScope} {p : Spot} {part : Instructions} {b b' : Build} (body : Block)
    (h : lowerScope c mode point p body b = .ok (part, b')) (hcode : LiesAt (code[·]?) p.ip part)
    (hsites : LiesAt sites p.ip (scopeSites c mode site p body)) (hsite : site.toShape = p.shape)
    (hc : c.enclosing = o :: around) (hpoint : point.op = .dispatch (o.table c.landing))
    (hchain : Chain code c.landing around) (hhome : TargetFits (shapesOf sites) p.shape c.landing)
    (hmode : mode = .none → o.label = "") : Links code sites p.ip part := by
  have halone : LiesAt sites p.ip [site] → Links code sites p.ip [point] := fun hsite =>
    along_cons.mpr ⟨⟨site, (along_cons.mp hsite).1, by rw [hpoint]; trivial⟩, along_nil⟩
  match body with
  | .missing =>
    simp only [lowerScope, Lower.pure_eq_ok] at h
    obtain ⟨rfl, rfl⟩ := h
    cases mode with
    | none => exact along_nil
    | loopEnd | perStatement => exact halone hsites
  | .mk stmts _ =>
    cases mode with
    | none =>
      simp only [lowerScope] at h
      -- A scope without dispatch points has no label, so no marker aims at it.
      refine links_lowerStmts stmts h hcode hsites ?_ hhome
      rw [hc]
      exact .silent (hmode rfl) hchain
    | loopEnd =>
      simp only [lowerScope, Lower.bind_eq_ok, Lower.pure_eq_ok] at h
      obtain ⟨inside, b₁, h₁, rfl, rfl⟩ := h
      simp only [scopeSites, along_append, along_cons, along_nil, length_stmtsSites,
        length_lowerStmts _ h₁, and_true] at hsites hcode ⊢
      obtain ⟨hinside, hafter⟩ := hsites
      have hnext : Chain code (p.skip (stmtsSize stmts)).target c.enclosing := by
        rw [hc]
        exact .point hcode.2 hpoint hchain
      refine ⟨links_lowerStmts stmts h₁ hcode.1 hinside hnext (fits_point hsite hafter), _, hafter, ?_⟩
      rw [hpoint]
      trivial
    | perStatement =>
      simp only [lowerScope] at h
      cases hs : stmts.isEmpty with
      | true =>
        simp only [hs, if_true, Lower.pure_eq_ok] at h
        obtain ⟨rfl, rfl⟩ := h
        simp only [scopeSites, hs, if_true] at hsites
        exact halone hsites
      | false =>
        simp only [hs, Bool.false_eq_true, if_false] at h
        simp only [scopeSites, hs, Bool.false_eq_true, if_false] at hsites
        exact links_lowerEach stmts h hcode hsites hsite hc hpoint hchain

theorem links_lowerClauses {code : Array Instruction} {sites : Nat → Option Site} {c : Context}
    {stop : Nat} {p : Spot} {part : Instructions} {b b' : Build} (clauses : List Clause)
    (h : lowerClauses c stop p clauses b = .ok (part, b')) (hcode : LiesAt (code[·]?) p.ip part)
    (hsites : LiesAt sites p.ip (clausesSites c p clauses))
    (hchain : Chain code c.landing c.enclosing)
    (hhome : TargetFits (shapesOf sites) p.shape c.landing) : Links code sites p.ip part := by
  match clauses with
  | [] =>
    simp only [lowerClauses, Lower.pure_eq_ok] at h
    simp [h]
  | .mk test body :: rest =>
    simp only [lowerClauses, Lower.bind_eq_ok, Lower.pure_eq_ok] at h
    obtain ⟨first, b₁, h₁, inside, b₂, h₂, more, b₃, h₃, rfl, rfl⟩ := h
    simp only [Spot.skip, ← Nat.add_assoc] at h₂ h₃
    simp only [clausesSites, Spot.skip, along_append, along_cons, along_nil,
      List.length_append, length_exprSites, length_blockSites, length_lowerExpr _ h₁,
      length_lowerBlock _ h₂, List.length_cons, List.length_nil, Nat.reduceAdd, and_true,
      ← Nat.add_assoc] at hsites hcode ⊢
    obtain ⟨⟨⟨⟨htest, hbranch⟩, hinside⟩, hleave⟩, hmore⟩ := hsites
    obtain ⟨⟨⟨-, hbody⟩, -⟩, hrest⟩ := hcode
    exact ⟨⟨⟨⟨links_lowerExpr h₁ htest rfl fun _ => hchain, _, hbranch, trivial⟩,
      links_lowerBlock body h₂ hbody hinside hchain hhome⟩, _, hleave, trivial⟩,
      links_lowerClauses rest h₃ hrest hmore hchain hhome⟩

end

/-! ## Units -/

section Units

variable {body : List Stmt} {u : CodeUnit} {ip : Nat} {i : Instruction} {s : Site}

theorem CodeOf.linked (h : CodeOf body u) (hi : u.code[ip]? = some i)
    (hs : (unitSites u.isSub u.origin body)[ip]? = some s) :
    Linked u.code ((unitSites u.isSub u.origin body)[·]?) s i.op := by
  obtain ⟨code, b, b', hcode, hu⟩ := h.lowered
  have hlies : LiesAt (u.code[·]?) 0 (code ++ unitEnd u.isSub) := by
    simpa only [hu, List.getElem?_toArray] using liesAt_self (code ++ unitEnd u.isSub)
  have hlinks : Links u.code ((unitSites u.isSub u.origin body)[·]?) 0 (code ++ unitEnd u.isSub) := by
    have hsites := liesAt_self (unitSites u.isSub u.origin body)
    generalize (fun ip : Nat => (unitSites u.isSub u.origin body)[ip]?) = sites at hsites ⊢
    simp only [unitSites, unitEnd, along_append, along_cons, along_nil, length_lowerStmts _ hcode,
      length_stmtsSites, and_true] at hlies hsites ⊢
    obtain ⟨hbody, hlast, hret⟩ := hsites
    refine ⟨links_lowerStmts (p := .start) body hcode hlies.1 hbody .exit trivial, ⟨_, hlast, ?_⟩,
      _, hret, trivial⟩
    split <;> trivial
  rw [hu, List.getElem?_toArray] at hi
  obtain ⟨t, ht, hlinked⟩ := hlinks ip i hi
  rw [Nat.zero_add] at ht
  obtain rfl : s = t := Option.some.inj (hs.symm.trans ht)
  exact hlinked

/-- The closures that the code of a lowered unit makes were lowered. -/
theorem Lowered.closure {v : CodeUnit} (h : Lowered u) (hi : u.code[ip]? = some i)
    (hop : i.op = .makeSub v) : Lowered v := by
  obtain ⟨body, hbody⟩ := h
  obtain ⟨s, hs⟩ := hbody.site_iff.mp ⟨i, hi⟩
  have hlinked := hbody.linked hi hs
  rw [hop] at hlinked
  exact hlinked

end Units

end KestrelLang.Code
