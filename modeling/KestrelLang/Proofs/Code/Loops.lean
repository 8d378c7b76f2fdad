import KestrelLang.Proofs.Code.Units

/-! # Loops over elements in lowered code

* `Operation.Still` — an operation that neither begins a walk nor goes on in one.
* `Foreach` — a loop over elements with the spot of its code.
* `Foreach.inside` — the shapes of a code without those inside of other loops.
* `Foreach.Closed` — no way leads into the rounds of a loop or out of them but its own.
* `WalksAt` — what is known about the instructions that begin a walk or go on in one.
* `walks_lowerStmt`, `CodeOf.walksAt` — every walk belongs to a closed loop. -/

namespace KestrelLang

def Operation.Still : Operation CodeUnit → Prop
  | .iterInit | .iterNext _ => False
  | _ => True

namespace Code

open KestrelLang.Label

/-! ## Expressions -/

def AllStill (code : Instructions) : Prop := ∀ i ∈ code, i.op.Still

namespace AllStill

variable {i : Instruction} {code rest : Instructions}

@[simp] theorem nil : AllStill [] := fun _ hi => absurd hi List.not_mem_nil

@[simp] theorem cons : AllStill (i :: rest) ↔ i.op.Still ∧ AllStill rest := List.forall_mem_cons

@[simp] theorem append : AllStill (code ++ rest) ↔ AllStill code ∧ AllStill rest := List.forall_mem_append

end AllStill

theorem still_nameAssignment {value : Instructions} (op : AssignOp) (name : String) (place span : Span)
    (hvalue : AllStill value) : AllStill (nameAssignment op name place span value) := by
  have hlast : (placed (if op = .declare then .declare name else .store name) span).op.Still := by
    split <;> trivial
  unfold nameAssignment
  cases op.binary? <;> simp only [AllStill.append, AllStill.cons, AllStill.nil, and_true]
  · exact ⟨hvalue, hlast⟩
  · exact ⟨⟨⟨trivial, hvalue⟩, trivial⟩, hlast⟩

theorem still_elementAssignment {value : Instructions} (op : AssignOp) (place span : Span) (hvalue : AllStill value) :
    AllStill (elementAssignment op place span value) := by
  unfold elementAssignment
  cases op.binary? <;> simp only [AllStill.append, AllStill.cons, AllStill.nil, and_true]
  · exact ⟨hvalue, trivial⟩
  · exact ⟨⟨⟨⟨trivial, trivial⟩, hvalue⟩, trivial⟩, trivial⟩

mutual

theorem still_lowerExpr {c : Context} {p : Spot} {code : Instructions} {b b' : Build} (e : Expr)
    (h : lowerExpr c p e b = .ok (code, b')) : AllStill code := by
  match e with
  | .missing | .undefined _ | .int .. | .float .. | .str .. | .ident .. =>
    simp only [lowerExpr, Lower.pure_eq_ok] at h
    obtain ⟨rfl, rfl⟩ := h
    exact List.forall_mem_singleton.mpr trivial
  | .array elements _ =>
    simp only [lowerExpr, Lower.bind_eq_ok, Lower.pure_eq_ok] at h
    obtain ⟨values, b₁, h₁, rfl, rfl⟩ := h
    simp only [AllStill.append, AllStill.cons, AllStill.nil, and_true]
    exact ⟨still_lowerExprs elements h₁, trivial⟩
  | .index object index _ =>
    simp only [lowerExpr, Lower.bind_eq_ok, Lower.pure_eq_ok] at h
    obtain ⟨first, b₁, h₁, second, b₂, h₂, rfl, rfl⟩ := h
    simp only [AllStill.append, AllStill.cons, AllStill.nil, and_true]
    exact ⟨⟨still_lowerExpr object h₁, still_lowerExpr index h₂⟩, trivial⟩
  | .unary _ operand _ =>
    simp only [lowerExpr, Lower.bind_eq_ok, Lower.pure_eq_ok] at h
    obtain ⟨value, b₁, h₁, rfl, rfl⟩ := h
    simp only [AllStill.append, AllStill.cons, AllStill.nil, and_true]
    exact ⟨still_lowerExpr operand h₁, trivial⟩
  | .binary op left right _ =>
    obtain ⟨first, b₁, second, test, h₁, h₂, htest, rfl⟩ | ⟨-, -, first, b₁, second, h₁, h₂, rfl⟩ :=
      lowerExpr_binary h
    all_goals
      have hfirst := still_lowerExpr left h₁
      have hsecond := still_lowerExpr right h₂
      simp only [AllStill.append, AllStill.cons, AllStill.nil, and_true]
    · refine ⟨⟨hfirst, trivial, ?_, trivial⟩, hsecond⟩
      obtain ⟨-, rfl⟩ | ⟨-, rfl⟩ := htest <;> trivial
    · exact ⟨⟨hfirst, hsecond⟩, trivial⟩
  | .assign op left right _ =>
    match left with
    | .ident name place =>
      obtain ⟨value, h₁, rfl⟩ := lowerExpr_assignName h
      exact still_nameAssignment op name _ _ (still_lowerExpr right h₁)
    | .index object index place =>
      obtain ⟨first, b₁, second, b₂, value, h₁, h₂, h₃, rfl⟩ := lowerExpr_assignElement h
      simp only [AllStill.append]
      exact ⟨⟨still_lowerExpr object h₁, still_lowerExpr index h₂⟩,
        still_elementAssignment op _ _ (still_lowerExpr right h₃)⟩
    | .missing | .str .. | .int .. | .float .. | .undefined _ | .array .. | .unary .. | .binary ..
    | .assign .. | .call .. | .closure .. => exact absurd h (lowerExpr_assignOther nofun nofun)
  | .call callee args _ =>
    simp only [lowerExpr, Lower.bind_eq_ok, Lower.pure_eq_ok] at h
    obtain ⟨first, b₁, h₁, second, b₂, h₂, rfl, rfl⟩ := h
    simp only [AllStill.append, AllStill.cons, AllStill.nil, and_true]
    exact ⟨⟨still_lowerExpr callee h₁, still_lowerExprs args h₂⟩, trivial⟩
  | .closure params body _ =>
    simp only [lowerExpr, Lower.bind_eq_ok, Lower.pure_eq_ok] at h
    -- The code of the body goes into a unit of its own.
    obtain ⟨u, b₁, h₁, _, b₂, _, rfl, rfl⟩ := h
    exact List.forall_mem_singleton.mpr trivial

theorem still_lowerExprs {c : Context} {p : Spot} {code : Instructions} {b b' : Build} (es : List Expr)
    (h : lowerExprs c p es b = .ok (code, b')) : AllStill code := by
  match es with
  | [] =>
    simp only [lowerExprs, Lower.pure_eq_ok] at h
    simp [h]
  | e :: es =>
    simp only [lowerExprs, Lower.bind_eq_ok, Lower.pure_eq_ok] at h
    obtain ⟨first, b₁, h₁, rest, b₂, h₂, rfl, rfl⟩ := h
    exact AllStill.append.mpr ⟨still_lowerExpr e h₁, still_lowerExprs es h₂⟩

end

section Pieces

variable {c : Context} {p : Spot} {code : Instructions} {b b' : Build}

theorem still_ite {q : Bool} {i : Instruction} (h : i.op.Still) : AllStill (if q then [i] else []) := by
  cases q <;> simp [h]

theorem still_negation (negate : Bool) : AllStill (negation negate) := still_ite trivial

theorem still_lowerOptional {e : Expr} {last : Operation CodeUnit} (h : lowerOptional c p e last b = .ok (code, b'))
    (hlast : last.Still) : AllStill code := by
  obtain ⟨-, rfl, -⟩ | ⟨-, value, h₁, rfl⟩ := lowerOptional_eq_ok h
  · exact .nil
  · simp only [AllStill.append, AllStill.cons, AllStill.nil, and_true]
    exact ⟨still_lowerExpr e h₁, hlast⟩

theorem still_lowerInit {init : Stmt} (h : lowerInit c p init b = .ok (code, b')) : AllStill code := by
  obtain ⟨-, rfl, -⟩ | ⟨e, value, rfl, h₁, rfl⟩ := lowerInit_eq_ok h
  · exact .nil
  · simp only [AllStill.append, AllStill.cons, AllStill.nil, and_true]
    exact ⟨still_lowerExpr e h₁, trivial⟩

end Pieces

/-! ## Loops -/

structure Foreach where
  spot : Spot
  label : Option Name
  item : Name
  iterable : Expr
  body : Block
  span : Span

namespace Foreach

def stmt (l : Foreach) : Stmt := .foreachLoop l.label l.item l.iterable l.body l.span

/-- The address where the walk begins. The next element is taken at the address after it. -/
def start (l : Foreach) : Nat := l.spot.ip + l.iterable.size

def stop (l : Foreach) : Nat := (foreachEnd l.spot l.label l.iterable l.body).ip

def targets (l : Foreach) : Continuations := foreachTargets l.spot l.label l.iterable l.body

/-- How many walks of the frame are under way around the loop. -/
def depth (l : Foreach) : Nat := l.spot.iters

def StandsIn (l : Foreach) (code : Array Instruction) : Prop :=
  ∃ c b b' part, lowerStmt c l.spot l.stmt b = .ok (part, b') ∧ LiesAt (code[·]?) l.spot.ip part

/-- The shapes of the addresses between the start and the stop of the loop, and of those outside of its walk. -/
def inside (l : Foreach) (shapes : Nat → Option Shape) (ip : Nat) : Option Shape :=
  (shapes ip).filter fun s => s.iters ≤ l.depth ∨ l.start < ip ∧ ip < l.stop

variable {l : Foreach} {shapes : Nat → Option Shape} {ip : Nat} {s : Shape}

theorem inside_eq_some : l.inside shapes ip = some s ↔
    shapes ip = some s ∧ (s.iters ≤ l.depth ∨ l.start < ip ∧ ip < l.stop) := by
  simp [inside, Option.filter_eq_some_iff]

theorem ip_stop (l : Foreach) : l.stop = l.start + 4 + l.body.scopeSize (modeOf (labelText l.label) true) + 2 := by
  rw [stop, ip_foreachEnd, start]

/-- No way leads out of the rounds of the loop or into them but through the place where the next element is taken, and
    in the rounds elements are taken in other walks only. -/
structure Closed (l : Foreach) (code : Array Instruction) (shapes : Nat → Option Shape) : Prop where
  depth : ∀ {s}, shapes l.start = some s → s.iters = l.depth
  fits : ∀ {ip i}, l.start + 1 < ip → ip < l.stop → code[ip]? = some i →
    ∃ s, l.inside shapes ip = some s ∧ OperationFits (l.inside shapes) ip s i.op
  takes : ∀ {ip i stop s}, l.start + 1 < ip → ip < l.stop → code[ip]? = some i → i.op = .iterNext stop →
    shapes ip = some s → l.depth + 1 < s.iters

end Foreach

/-- What is known about an instruction within `depth` walks: it begins the walk of a closed loop, it goes on in a walk
    that is further inside, or it does neither. -/
def WalksAt (code : Array Instruction) (shapes : Nat → Option Shape) (depth ip : Nat) (i : Instruction) : Prop :=
  match i.op with
  | .iterInit => ∃ l : Foreach, l.start = ip ∧ l.StandsIn code ∧ l.Closed code shapes
  | .iterNext _ => ∀ s, shapes ip = some s → depth < s.iters
  | _ => True

/-- The instructions of `part`, which stand at `pos` within `depth` walks, are as `WalksAt` says. -/
abbrev Walks (code : Array Instruction) (shapes : Nat → Option Shape) (depth pos : Nat) (part : Instructions) : Prop :=
  Along (WalksAt code shapes depth) pos part

section Walks

variable {code : Array Instruction} {shapes : Nat → Option Shape} {depth pos ip : Nat} {i : Instruction}
  {part : Instructions}

theorem walksAt_of_still (h : i.op.Still) : WalksAt code shapes depth ip i := by
  unfold WalksAt
  cases hop : i.op <;> rw [hop] at h <;> trivial

theorem walks_of_still (h : AllStill part) : Walks code shapes depth pos part := fun _ i hi =>
  walksAt_of_still (h i (List.mem_of_getElem? hi))

theorem Walks.mono {depth' : Nat} (h : Walks code shapes depth' pos part) (hle : depth ≤ depth') :
    Walks code shapes depth pos part := by
  intro n i hi
  have hat := h n i hi
  unfold WalksAt at hat ⊢
  split
  · simpa only [‹i.op = _›] using hat
  · simp only [‹i.op = _›] at hat
    exact fun s hs => Nat.lt_of_le_of_lt hle (hat s hs)
  · trivial

theorem along_at {α : Type} {P : Nat → α → Prop} {table : Nat → Option α} {xs : List α} {x : α} (h : Along P pos xs)
    (hlies : LiesAt table pos xs) (hlo : pos ≤ ip) (hhi : ip < pos + xs.length) (hx : table ip = some x) : P ip x := by
  obtain ⟨n, rfl⟩ := Nat.exists_eq_add_of_le hlo
  have hget := List.getElem?_eq_getElem (Nat.add_lt_add_iff_left.mp hhi)
  obtain rfl := Option.some.inj ((hlies n _ hget).symm.trans hx)
  exact h n _ hget

end Walks

/-! ## What a loop encloses -/

section Enclosed

variable {l : Foreach} {code : Array Instruction} {shapes : Nat → Option Shape} {pos : Nat} {s : Shape} {c : Context}

theorem Shaped.inside {sites : List Site} (h : Shaped shapes pos sites) (hlo : l.start < pos)
    (hhi : pos + sites.length ≤ l.stop) : Shaped (l.inside shapes) pos sites := by
  intro n site hsite
  obtain ⟨hn, -⟩ := List.getElem?_eq_some_iff.mp hsite
  exact Foreach.inside_eq_some.mpr ⟨h n site hsite, .inr ⟨by omega, by omega⟩⟩

theorem TargetFits.inside {t : JumpTarget} (h : TargetFits shapes s t) (hs : s.iters ≤ l.depth) :
    TargetFits (l.inside shapes) s t := by
  cases t with
  | exit => trivial
  | «to» ip scopes iters =>
    exact ⟨h.1, h.2.1, Foreach.inside_eq_some.mpr ⟨h.2.2, .inl (Nat.le_trans h.2.1 hs)⟩⟩

theorem ContextFits.inside (h : ContextFits shapes l.spot.shape c) : ContextFits (l.inside shapes) l.spot.shape c where
  landing := h.landing.inside (Nat.le_refl _)
  enclosing o ho kind := ⟨(h.enclosing o ho kind).1, (h.enclosing o ho kind).2.inside (Nat.le_refl _)⟩

/-- A lowered loop is closed: within the shapes of its inside all of its rounds fit. -/
theorem Foreach.closed {part : Instructions} {b b' : Build}
    (h : lowerScope (c.enter l.label true l.targets) (modeOf (labelText l.label) true)
      (dispatchPoint l.label l.targets c.landing l.span) ((foreachNext l.spot l.iterable).inner 3) l.body b = .ok (part, b'))
    (hcode : LiesAt (code[·]?) (l.start + 2) ([bare .enterScope, bare (.iterBind l.item.text)] ++ part
      ++ [bare .exitScope, bare (.branch (foreachNext l.spot l.iterable).ip)]))
    (hsites : Shaped shapes l.spot.ip (stmtSites c l.spot l.stmt))
    (hend : shapes (l.spot.ip + l.stmt.size) = some l.spot.shape) (hc : ContextFits shapes l.spot.shape c)
    (hwalks : Walks code shapes (l.depth + 1) (l.start + 4) part) : l.Closed code shapes := by
  have hstop := l.ip_stop
  have hlength := length_lowerScope _ _ h
  have hentry : shapes l.spot.ip = some l.spot.shape := entry_stmt (s := l.stmt) hsites hend
  simp only [stmt, stmtSites, along_append, along_cons, along_nil, List.length_append, length_exprSites,
    length_scopeSites, List.length_cons, List.length_nil, Nat.reduceAdd, and_true, ← Nat.add_assoc] at hsites
  obtain ⟨⟨⟨-, hinit, hnext, henter, hbind⟩, hinside⟩, hexit, hback, -⟩ := hsites
  have hin : ∀ ip {s}, l.start < ip → ip < l.stop → shapes ip = some s → l.inside shapes ip = some s :=
    fun _ _ hlo hhi hs => inside_eq_some.mpr ⟨hs, .inr ⟨hlo, hhi⟩⟩
  have hout : ∀ {ip}, shapes ip = some l.spot.shape → l.inside shapes ip = some l.spot.shape :=
    fun hs => inside_eq_some.mpr ⟨hs, .inl (Nat.le_refl _)⟩
  -- The shapes between the start and the stop are the same in the table of the inside.
  change Shaped shapes (l.start + 4) _ at hinside
  replace hnext := hin (l.start + 1) (by omega) (by omega) hnext
  replace henter := hin (l.start + 1 + 1) (by omega) (by omega) henter
  replace hbind := hin (l.start + 1 + 1 + 1) (by omega) (by omega) hbind
  replace hinside := hinside.inside (l := l) (by omega) (by rw [length_scopeSites]; omega)
  replace hexit := hin (l.start + 4 + l.body.scopeSize (modeOf (labelText l.label) true)) (by omega) (by omega) hexit
  replace hback := hin (l.start + 4 + l.body.scopeSize (modeOf (labelText l.label) true) + 1) (by omega) (by omega)
    hback
  have hknext : ContinuationsFit (l.inside shapes) (foreachNext l.spot l.iterable).shape l.targets :=
    fits_foreachTargets (hout hentry) hnext henter (hout hend)
  have hk := hknext.mono (r := ((foreachNext l.spot l.iterable).inner 3).shape) (Nat.le_succ _) (Nat.le_refl _)
  have hinner := hc.inside.mono (r := ((foreachNext l.spot l.iterable).inner 3).shape) (Nat.le_succ _) (Nat.le_succ _)
  have hscope := flows_lowerScope l.body h hinside hexit (hinner.enter hk) rfl
    fun ip hafter => fits_dispatchPoint hafter hinner.landing hk
  have hbound := entry_scope (p := (foreachNext l.spot l.iterable).inner 3) rfl hinside hexit
  have hflows : Flows (l.inside shapes) (l.start + 2) ([bare .enterScope, bare (.iterBind l.item.text)] ++ part
      ++ [bare .exitScope, bare (.branch (foreachNext l.spot l.iterable).ip)]) := by
    simp only [along_append, along_cons, along_nil, List.length_append, List.length_cons, List.length_nil, hlength,
      Nat.reduceAdd, and_true, ← Nat.add_assoc]
    exact ⟨⟨⟨⟨_, henter, hbind⟩, _, hbind, Nat.le_add_left .., hbound⟩, hscope⟩, ⟨_, hexit, Nat.le_add_left .., hback⟩,
      _, hback, hnext⟩
  have hall : Walks code shapes (l.depth + 1) (l.start + 2) ([bare .enterScope, bare (.iterBind l.item.text)] ++ part
      ++ [bare .exitScope, bare (.branch (foreachNext l.spot l.iterable).ip)]) := by
    simp only [along_append, along_cons, along_nil, List.length_cons, List.length_nil, Nat.reduceAdd, and_true]
    exact ⟨⟨⟨trivial, trivial⟩, hwalks⟩, trivial, trivial⟩
  have hrange : ∀ {ip}, ip < l.stop → ip < l.start + 2 + ([bare .enterScope, bare (.iterBind l.item.text)] ++ part
      ++ [bare .exitScope, bare (.branch (foreachNext l.spot l.iterable).ip)]).length := by
    simp only [List.length_append, List.length_cons, List.length_nil, hlength]
    omega
  refine ⟨fun hs => ?_, fun hlo hhi hi => along_at hflows hcode hlo (hrange hhi) hi, fun hlo hhi hi hop => ?_⟩
  · obtain rfl := Option.some.inj (hinit.symm.trans hs)
    rfl
  have hat := along_at hall hcode hlo (hrange hhi) hi
  unfold WalksAt at hat
  rw [hop] at hat
  exact hat _

end Enclosed

/-! ## Statements -/

section Inside

variable {shapes : Nat → Option Shape} {c : Context} {p : Spot} {label : Option Name} {body : Block} {span : Span}

theorem fits_insideBare (hsites : Shaped shapes p.ip (stmtSites c p (.bare label body span)))
    (hend : shapes (p.ip + (Stmt.bare label body span).size) = some p.shape) (hc : ContextFits shapes p.shape c) :
    ContextFits shapes (bareBody p).shape (c.enter label false (bareTargets p label body)) := by
  have hinner : ContextFits shapes (bareBody p).shape c := hc.mono (Nat.le_succ _) (Nat.le_refl _)
  exact hinner.enter (fits_bareTargets (entry_stmt hsites hend) hend)

theorem fits_insideWhile {test : Expr} {negate : Bool}
    (hsites : Shaped shapes p.ip (stmtSites c p (.whileLoop label test negate body span)))
    (hend : shapes (p.ip + (Stmt.whileLoop label test negate body span).size) = some p.shape)
    (hc : ContextFits shapes p.shape c) :
    ContextFits shapes ((whileRound p test negate).inner 1).shape (c.enter label true (whileTargets p label test negate body)) := by
  have hentry := entry_stmt hsites hend
  simp only [stmtSites, along_append, along_cons, along_nil, List.length_append, length_exprSites, length_siteIf,
    and_true, ← Nat.add_assoc] at hsites
  obtain ⟨⟨⟨⟨-, -, henter⟩, -⟩, -⟩, -⟩ := hsites
  have hinner : ContextFits shapes ((whileRound p test negate).inner 1).shape c := hc.mono (Nat.le_succ _) (Nat.le_refl _)
  exact hinner.enter ((fits_whileTargets hentry henter hend).mono (Nat.le_succ _) (Nat.le_refl _))

theorem fits_insideFor {init : Stmt} {test step : Expr}
    (hsites : Shaped shapes p.ip (stmtSites c p (.forLoop label init test step body span)))
    (hend : shapes (p.ip + (Stmt.forLoop label init test step body span).size) = some p.shape)
    (hc : ContextFits shapes p.shape c) :
    ContextFits shapes ((forRound p init test).inner 1).shape (c.enter label true (forTargets p label init test step body)) := by
  have hentry := entry_stmt hsites hend
  simp only [stmtSites, along_append, along_cons, along_nil, List.length_append, length_initSites, length_optionalSites,
    length_scopeSites, List.length_cons, List.length_nil, Nat.reduceAdd, and_true, ← Nat.add_assoc] at hsites
  obtain ⟨⟨⟨⟨⟨⟨⟨-, hopen⟩, -⟩, -⟩, hstep⟩, hback⟩, -⟩, -⟩ := hsites
  have hinner : ContextFits shapes ((forRound p init test).inner 1).shape c :=
    hc.mono (Nat.le_add_right _ 2) (Nat.le_refl _)
  have hk := fits_forTargets hentry hopen (entry_optional hstep hback) hend
  exact hinner.enter (hk.mono (Nat.le_succ _) (Nat.le_refl _))

theorem fits_insideForeach {item : Name} {iterable : Expr}
    (hsites : Shaped shapes p.ip (stmtSites c p (.foreachLoop label item iterable body span)))
    (hend : shapes (p.ip + (Stmt.foreachLoop label item iterable body span).size) = some p.shape)
    (hc : ContextFits shapes p.shape c) :
    ContextFits shapes ((foreachNext p iterable).inner 3).shape (c.enter label true (foreachTargets p label iterable body)) := by
  have hentry := entry_stmt hsites hend
  simp only [stmtSites, along_append, along_cons, along_nil, length_exprSites, and_true] at hsites
  obtain ⟨⟨⟨-, -, hnext, henter, -⟩, -⟩, -⟩ := hsites
  have hinner : ContextFits shapes ((foreachNext p iterable).inner 3).shape c :=
    hc.mono (Nat.le_succ _) (Nat.le_succ _)
  exact hinner.enter ((fits_foreachTargets hentry hnext henter hend).mono (Nat.le_succ _) (Nat.le_refl _))

end Inside

mutual

/-- Every walk in the code of a statement belongs to a closed loop. -/
theorem walks_lowerStmt {code : Array Instruction} {shapes : Nat → Option Shape} {c : Context} {p : Spot}
    {part : Instructions} {b b' : Build} (s : Stmt) (h : lowerStmt c p s b = .ok (part, b'))
    (hcode : LiesAt (code[·]?) p.ip part) (hsites : Shaped shapes p.ip (stmtSites c p s))
    (hend : shapes (p.ip + s.size) = some p.shape) (hc : ContextFits shapes p.shape c) :
    Walks code shapes p.iters p.ip part := by
  -- The loops need these for the whole statement, besides those for its parts.
  have hwhole := h
  have hpart := hcode
  have hall := hsites
  match s with
  | .missing =>
    simp only [lowerStmt, Lower.pure_eq_ok] at h
    simp [h]
  | .expr e =>
    simp only [lowerStmt, Lower.bind_eq_ok, Lower.pure_eq_ok] at h
    obtain ⟨value, b₁, h₁, rfl, rfl⟩ := h
    refine walks_of_still ?_
    simp only [AllStill.append, AllStill.cons, AllStill.nil, and_true]
    exact ⟨still_lowerExpr e h₁, by cases c.isSub <;> trivial⟩
  | .block body =>
    simp only [lowerStmt] at h
    simp only [stmtSites, Stmt.size] at hsites hend
    exact walks_lowerBlock body h hcode hsites hend hc
  | .verb kind label span =>
    simp only [lowerStmt] at h
    cases hk : MarkerKind.ofVerb? kind with
    | none => simp [hk] at h
    | some marker =>
      simp only [hk, Lower.pure_eq_ok] at h
      obtain ⟨rfl, rfl⟩ := h
      refine walks_of_still (List.forall_mem_singleton.mpr ?_)
      unfold verbInstr
      split <;> trivial
  | .tailCall callee args reuse _ =>
    refine walks_of_still ?_
    cases reuse <;> simp only [lowerStmt, Lower.bind_eq_ok, Lower.pure_eq_ok, if_true, if_false,
      Bool.false_eq_true] at h
    · obtain ⟨first, b₁, h₁, second, b₂, h₂, rfl, rfl⟩ := h
      simp only [AllStill.append, AllStill.cons, AllStill.nil, and_true]
      exact ⟨⟨still_lowerExpr callee h₁, still_lowerExprs args h₂⟩, trivial⟩
    · obtain ⟨first, b₁, h₁, second, b₂, ⟨rfl, rfl⟩, rfl, rfl⟩ := h
      simp only [List.append_nil, AllStill.append, AllStill.cons, AllStill.nil, and_true]
      exact ⟨still_lowerExpr callee h₁, trivial⟩
  | .ret argument _ =>
    simp only [lowerStmt, Lower.bind_eq_ok, Lower.pure_eq_ok] at h
    obtain ⟨value, b₁, h₁, rfl, rfl⟩ := h
    refine walks_of_still ?_
    simp only [AllStill.append, AllStill.cons, AllStill.nil, and_true]
    exact ⟨still_lowerExpr argument h₁, trivial⟩
  | .sub name params body _ =>
    simp only [lowerStmt, Lower.bind_eq_ok, Lower.pure_eq_ok] at h
    obtain ⟨_, b₁, _, unit, b₂, _, _, b₃, _, rfl, rfl⟩ := h
    exact along_nil
  | .bare label body span =>
    simp only [lowerStmt, Lower.bind_eq_ok, Lower.pure_eq_ok] at h
    obtain ⟨inside, b₁, h₁, rfl, rfl⟩ := h
    simp only [stmtSites, List.cons_append, List.nil_append, along_append, along_cons, along_nil,
      length_scopeSites, length_lowerScope _ _ h₁, and_true] at hsites hcode ⊢
    obtain ⟨-, hinside, hexit⟩ := hsites
    exact ⟨trivial,
      walks_lowerScope body h₁ hcode.2.1 hinside hexit (fits_insideBare hall hend hc) rfl trivial, trivial⟩
  | .whileLoop label test negate body span =>
    simp only [lowerStmt, Lower.bind_eq_ok, Lower.pure_eq_ok] at h
    obtain ⟨first, b₁, h₁, inside, b₂, h₂, rfl, rfl⟩ := h
    simp only [stmtSites, along_append, along_cons, along_nil, List.length_append, length_exprSites, length_siteIf,
      length_scopeSites, List.length_cons, List.length_nil, length_lowerExpr _ h₁, length_negation,
      length_lowerScope _ _ h₂, Nat.reduceAdd, and_true, ← Nat.add_assoc] at hsites hcode ⊢
    obtain ⟨⟨⟨-, hinside⟩, hexit, -⟩, -⟩ := hsites
    have hbody := ip_whileRound_inner p test negate
    have hscope := walks_lowerScope body h₂ (hbody ▸ hcode.1.1.2) (hbody ▸ hinside) (hbody ▸ hexit)
      (fits_insideWhile hall hend hc) rfl trivial
    rw [hbody] at hscope
    exact ⟨⟨⟨⟨⟨⟨walks_of_still (still_lowerExpr test h₁), walks_of_still (still_negation negate)⟩, trivial⟩, trivial⟩,
      hscope⟩, trivial, trivial⟩, walks_of_still (still_ite trivial)⟩
  | .forLoop label init test step body span =>
    simp only [lowerStmt_forLoop, Lower.bind_eq_ok, Lower.pure_eq_ok] at h
    obtain ⟨first, b₁, h₁, second, b₂, h₂, inside, b₃, h₃, third, b₄, h₄, rfl, rfl⟩ := h
    simp only [stmtSites, along_append, along_cons, along_nil, List.length_append, length_initSites,
      length_optionalSites, length_siteIf, length_scopeSites, List.length_cons, List.length_nil, length_lowerInit h₁,
      length_lowerOptional h₂, length_lowerScope _ _ h₃, length_lowerOptional h₄, length_ite_singleton, Nat.reduceAdd,
      and_true, ← Nat.add_assoc] at hsites hcode ⊢
    obtain ⟨⟨⟨⟨⟨⟨-, hinside⟩, hexit⟩, -⟩, -⟩, -⟩, -⟩ := hsites
    obtain ⟨⟨⟨⟨⟨⟨-, hpart⟩, -⟩, -⟩, -⟩, -⟩, -⟩ := hcode
    have hbody := ip_forRound_inner p init test
    have hscope := walks_lowerScope body h₃ (hbody ▸ hpart) (hbody ▸ hinside) (hbody ▸ hexit)
      (fits_insideFor hall hend hc) rfl trivial
    rw [hbody] at hscope
    exact ⟨⟨⟨⟨⟨⟨⟨⟨⟨trivial, walks_of_still (still_lowerInit h₁)⟩, walks_of_still (still_lowerOptional h₂ trivial)⟩,
      trivial⟩, hscope⟩, trivial⟩, walks_of_still (still_lowerOptional h₄ trivial)⟩, trivial⟩,
      walks_of_still (still_ite trivial)⟩, trivial⟩
  | .foreachLoop label item iterable body span =>
    simp only [lowerStmt, Lower.bind_eq_ok, Lower.pure_eq_ok] at h
    obtain ⟨first, b₁, h₁, inside, b₂, h₂, rfl, rfl⟩ := h
    simp only [stmtSites, along_append, along_cons, along_nil, List.length_append, length_exprSites, length_scopeSites,
      length_lowerExpr _ h₁, length_lowerScope _ _ h₂, List.length_cons, List.length_nil, Nat.reduceAdd, and_true,
      ← Nat.add_assoc] at hsites hcode ⊢
    obtain ⟨⟨⟨-, -, hnext, -, -⟩, hinside⟩, hexit, -⟩ := hsites
    obtain ⟨⟨⟨⟨-, -⟩, henter, hbind⟩, hbody⟩, hleave, hback, -⟩ := hcode
    have hscope := walks_lowerScope (p := (foreachNext p iterable).inner 3) body h₂ hbody hinside hexit
      (fits_insideForeach hall hend hc) rfl trivial
    let l : Foreach := ⟨p, label, item, iterable, body, span⟩
    have hclosed : l.Closed code shapes := by
      refine Foreach.closed (l := l) h₂ ?_ hall hend hc hscope
      simp only [along_append, along_cons, along_nil, List.length_append, List.length_cons, List.length_nil,
        length_lowerScope _ _ h₂, Nat.reduceAdd, and_true, ← Nat.add_assoc]
      exact ⟨⟨⟨henter, hbind⟩, hbody⟩, hleave, hback⟩
    have hstands : l.StandsIn code := ⟨c, b, _, _, hwhole, hpart⟩
    refine ⟨⟨⟨⟨walks_of_still (still_lowerExpr iterable h₁), ⟨l, rfl, hstands, hclosed⟩, fun s hs => ?_⟩, trivial, trivial⟩,
      hscope.mono (Nat.le_succ _)⟩, trivial, trivial, trivial⟩
    -- The next element is taken within one walk more than there are around the loop.
    obtain rfl := Option.some.inj (hnext.symm.trans hs)
    exact Nat.lt_succ_self _
  | .ifChain test negate body clauses otherwise span =>
    simp only [lowerStmt, Lower.bind_eq_ok, Lower.pure_eq_ok] at h
    obtain ⟨first, b₁, h₁, inside, b₂, h₂, more, b₃, h₃, last, b₄, h₄, rfl, rfl⟩ := h
    have hstop := hend
    simp only [Spot.skip, ← Nat.add_assoc] at h₂ h₃ h₄
    simp only [stmtSites, Stmt.size, Spot.skip, along_append, along_cons, along_nil, List.length_append,
      length_exprSites, length_siteIf, length_blockSites, length_clausesSites, length_lowerExpr _ h₁, length_negation,
      length_lowerBlock _ h₂, length_lowerClauses _ h₃, List.length_cons, List.length_nil, Nat.reduceAdd, and_true,
      ← Nat.add_assoc] at hsites hcode hend ⊢
    obtain ⟨⟨⟨⟨-, hinside⟩, hleave⟩, hmore⟩, hlast⟩ := hsites
    obtain ⟨⟨⟨⟨-, hbody⟩, -⟩, hclauses⟩, helse⟩ := hcode
    exact ⟨⟨⟨⟨⟨⟨walks_of_still (still_lowerExpr test h₁), walks_of_still (still_negation negate)⟩, trivial⟩,
      walks_lowerBlock body h₂ hbody hinside hleave hc⟩, trivial⟩,
      walks_lowerClauses clauses h₃ hclauses hmore (entry_block hlast hend) hstop hc⟩,
      walks_lowerBlock otherwise h₄ helse hlast hend hc⟩

theorem walks_lowerBlock {code : Array Instruction} {shapes : Nat → Option Shape} {c : Context} {p : Spot}
    {part : Instructions} {b b' : Build} (body : Block) (h : lowerBlock c p body b = .ok (part, b'))
    (hcode : LiesAt (code[·]?) p.ip part) (hsites : Shaped shapes p.ip (blockSites c p body))
    (hend : shapes (p.ip + body.size) = some p.shape) (hc : ContextFits shapes p.shape c) :
    Walks code shapes p.iters p.ip part := by
  match body with
  | .missing =>
    simp only [lowerBlock, Lower.pure_eq_ok] at h
    simp [h]
  | .mk stmts _ =>
    simp only [lowerBlock, Lower.bind_eq_ok, Lower.pure_eq_ok] at h
    obtain ⟨inside, b₁, h₁, rfl, rfl⟩ := h
    simp only [blockSites, List.cons_append, List.nil_append, along_append, along_cons, along_nil,
      length_stmtsSites, length_lowerStmts _ h₁, and_true] at hsites hcode ⊢
    have hinner : ContextFits shapes (p.inner 1).shape c := hc.mono (Nat.le_succ _) (Nat.le_refl _)
    exact ⟨trivial, walks_lowerStmts (p := p.inner 1) stmts h₁ hcode.2.1 hsites.2.1 hsites.2.2 hinner, trivial⟩

theorem walks_lowerStmts {code : Array Instruction} {shapes : Nat → Option Shape} {c : Context} {p : Spot}
    {part : Instructions} {b b' : Build} (stmts : List Stmt) (h : lowerStmts c p stmts b = .ok (part, b'))
    (hcode : LiesAt (code[·]?) p.ip part) (hsites : Shaped shapes p.ip (stmtsSites c p stmts))
    (hend : shapes (p.ip + stmtsSize stmts) = some p.shape) (hc : ContextFits shapes p.shape c) :
    Walks code shapes p.iters p.ip part := by
  match stmts with
  | [] =>
    simp only [lowerStmts, Lower.pure_eq_ok] at h
    simp [h]
  | s :: rest =>
    simp only [lowerStmts, Lower.bind_eq_ok, Lower.pure_eq_ok] at h
    obtain ⟨first, b₁, h₁, more, b₂, h₂, rfl, rfl⟩ := h
    simp only [stmtsSites, stmtsSize, along_append, length_stmtSites, length_lowerStmt _ h₁,
      ← Nat.add_assoc] at hsites hcode hend ⊢
    exact ⟨walks_lowerStmt s h₁ hcode.1 hsites.1 (entry_stmts (p := p.skip s.size) hsites.2 hend) hc,
      walks_lowerStmts (p := p.skip s.size) rest h₂ hcode.2 hsites.2 hend hc⟩

theorem walks_lowerEach {code : Array Instruction} {shapes : Nat → Option Shape} {c : Context} {point : Instruction}
    {site : Site} {p : Spot} {part : Instructions} {b b' : Build} (stmts : List Stmt)
    (h : lowerEach c point p stmts b = .ok (part, b')) (hcode : LiesAt (code[·]?) p.ip part)
    (hsites : Shaped shapes p.ip (eachSites c site p stmts))
    (hend : shapes (p.ip + (stmtsSize stmts + stmts.length)) = some p.shape) (hc : ContextFits shapes p.shape c)
    (hsite : site.toShape = p.shape) (hpoint : point.op.Still) : Walks code shapes p.iters p.ip part := by
  match stmts with
  | [] =>
    simp only [lowerEach, Lower.pure_eq_ok] at h
    simp [h]
  | s :: rest =>
    simp only [lowerEach, Lower.bind_eq_ok, Lower.pure_eq_ok] at h
    obtain ⟨first, b₁, h₁, more, b₂, h₂, rfl, rfl⟩ := h
    simp only [eachSites, along_append, along_cons, along_nil, List.length_append, length_stmtSites,
      length_lowerStmt _ h₁, List.length_cons, List.length_nil, hsite, and_true, ← Nat.add_assoc] at hsites hcode ⊢
    obtain ⟨⟨hfirst, hafter⟩, hmore⟩ := hsites
    have hlast : shapes (p.ip + s.size + 1 + (stmtsSize rest + rest.length)) = some p.shape := by
      have haddress : p.ip + s.size + 1 + (stmtsSize rest + rest.length) =
          p.ip + (stmtsSize (s :: rest) + (s :: rest).length) := by
        simp only [stmtsSize, List.length_cons]
        omega
      rw [haddress]
      exact hend
    have hland : TargetFits shapes p.shape (p.skip s.size).target :=
      targetFits_spot hafter (Nat.le_refl _) (Nat.le_refl _)
    exact ⟨⟨walks_lowerStmt s h₁ hcode.1.1 hfirst hafter (hc.landingAt hland), walksAt_of_still hpoint⟩,
      walks_lowerEach (p := p.skip (s.size + 1)) rest h₂ hcode.2 hmore hlast hc hsite hpoint⟩

theorem walks_lowerScope {code : Array Instruction} {shapes : Nat → Option Shape} {c : Context} {mode : DispatchMode}
    {point : Instruction} {site : Site} {p : Spot} {part : Instructions} {b b' : Build} (body : Block)
    (h : lowerScope c mode point p body b = .ok (part, b')) (hcode : LiesAt (code[·]?) p.ip part)
    (hsites : Shaped shapes p.ip (scopeSites c mode site p body))
    (hend : shapes (p.ip + body.scopeSize mode) = some p.shape) (hc : ContextFits shapes p.shape c)
    (hsite : site.toShape = p.shape) (hpoint : point.op.Still) : Walks code shapes p.iters p.ip part := by
  have halone : Walks code shapes p.iters p.ip [point] := along_cons.mpr ⟨walksAt_of_still hpoint, along_nil⟩
  match body with
  | .missing =>
    simp only [lowerScope, Lower.pure_eq_ok] at h
    obtain ⟨rfl, rfl⟩ := h
    cases mode with
    | none => exact along_nil
    | loopEnd | perStatement => exact halone
  | .mk stmts _ =>
    cases mode with
    | none =>
      simp only [lowerScope] at h
      exact walks_lowerStmts stmts h hcode hsites hend hc
    | loopEnd =>
      simp only [lowerScope, Lower.bind_eq_ok, Lower.pure_eq_ok] at h
      obtain ⟨inside, b₁, h₁, rfl, rfl⟩ := h
      simp only [scopeSites, along_append, along_cons, along_nil, length_stmtsSites, length_lowerStmts _ h₁, hsite,
        and_true] at hsites hcode ⊢
      have hland : TargetFits shapes p.shape (p.skip (stmtsSize stmts)).target :=
        targetFits_spot hsites.2 (Nat.le_refl _) (Nat.le_refl _)
      exact ⟨walks_lowerStmts stmts h₁ hcode.1 hsites.1 hsites.2 (hc.landingAt hland), walksAt_of_still hpoint⟩
    | perStatement =>
      simp only [lowerScope] at h
      cases hs : stmts.isEmpty with
      | true =>
        simp only [hs, if_true, Lower.pure_eq_ok] at h
        obtain ⟨rfl, rfl⟩ := h
        exact halone
      | false =>
        simp only [hs, Bool.false_eq_true, if_false] at h
        simp only [scopeSites, Block.scopeSize, hs, Bool.false_eq_true, if_false] at hsites hend
        exact walks_lowerEach stmts h hcode hsites hend hc hsite hpoint

theorem walks_lowerClauses {code : Array Instruction} {shapes : Nat → Option Shape} {c : Context} {stop : Nat} {p : Spot}
    {part : Instructions} {b b' : Build} (clauses : List Clause) (h : lowerClauses c stop p clauses b = .ok (part, b'))
    (hcode : LiesAt (code[·]?) p.ip part) (hsites : Shaped shapes p.ip (clausesSites c p clauses))
    (hend : shapes (p.ip + clausesSize clauses) = some p.shape) (hstop : shapes stop = some p.shape)
    (hc : ContextFits shapes p.shape c) : Walks code shapes p.iters p.ip part := by
  match clauses with
  | [] =>
    simp only [lowerClauses, Lower.pure_eq_ok] at h
    simp [h]
  | .mk test body :: rest =>
    simp only [lowerClauses, Lower.bind_eq_ok, Lower.pure_eq_ok] at h
    obtain ⟨first, b₁, h₁, inside, b₂, h₂, more, b₃, h₃, rfl, rfl⟩ := h
    simp only [Spot.skip, ← Nat.add_assoc] at h₂ h₃
    simp only [clausesSites, clausesSize, Spot.skip, along_append, along_cons, along_nil, List.length_append,
      length_exprSites, length_blockSites, length_lowerExpr _ h₁, length_lowerBlock _ h₂, List.length_cons,
      List.length_nil, Nat.reduceAdd, and_true, ← Nat.add_assoc] at hsites hcode hend ⊢
    obtain ⟨⟨⟨-, hinside⟩, hleave⟩, hmore⟩ := hsites
    obtain ⟨⟨⟨-, hbody⟩, -⟩, hrest⟩ := hcode
    exact ⟨⟨⟨⟨walks_of_still (still_lowerExpr test h₁), trivial⟩, walks_lowerBlock body h₂ hbody hinside hleave hc⟩,
      trivial⟩, walks_lowerClauses rest h₃ hrest hmore hend hstop hc⟩

end

/-! ## Units -/

/-- The instructions of a loop outside of its body. -/
structure Foreach.Skeleton (l : Foreach) (code : Array Instruction) : Prop where
  next : ∃ i, code[l.start + 1]? = some i ∧ i.op = .iterNext l.stop
  opens : ∃ i, code[l.start + 2]? = some i ∧ i.op = .enterScope
  binds : ∃ i, code[l.start + 3]? = some i ∧ i.op = .iterBind l.item.text
  drops : ∃ i, code[l.stop]? = some i ∧ i.op = .iterPop

theorem Foreach.StandsIn.skeleton {l : Foreach} {code : Array Instruction} (h : l.StandsIn code) : l.Skeleton code := by
  obtain ⟨c, b, b', part, h, hcode⟩ := h
  simp only [stmt, lowerStmt, Lower.bind_eq_ok, Lower.pure_eq_ok] at h
  obtain ⟨first, b₁, h₁, inside, b₂, h₂, rfl, rfl⟩ := h
  have hstop := ip_foreachEnd l.spot l.label l.iterable l.body
  simp only [along_append, along_cons, along_nil, List.length_append, length_lowerExpr _ h₁, length_lowerScope _ _ h₂,
    List.length_cons, List.length_nil, Nat.reduceAdd, and_true, ← Nat.add_assoc] at hcode hstop
  obtain ⟨⟨⟨⟨-, -, hnext⟩, henter, hbind⟩, -⟩, -, -, hpop⟩ := hcode
  have hdrop : code[l.stop]? = some (bare .iterPop) := by
    rw [stop, hstop]
    exact hpop
  exact ⟨⟨_, hnext, rfl⟩, ⟨_, henter, rfl⟩, ⟨_, hbind, rfl⟩, _, hdrop, rfl⟩

theorem CodeOf.walksAt {body : List Stmt} {u : CodeUnit} {ip : Nat} {i : Instruction} (h : CodeOf body u)
    (hi : u.code[ip]? = some i) : WalksAt u.code (unitShapes u.isSub u.origin body) 0 ip i := by
  obtain ⟨code, b, b', hcode, hu⟩ := h.lowered
  have hlies : LiesAt (u.code[·]?) 0 (code ++ unitEnd u.isSub) := by
    simpa only [hu, List.getElem?_toArray] using liesAt_self (code ++ unitEnd u.isSub)
  have hsites := shaped_unitSites u.isSub u.origin body
  simp only [unitSites, along_append, along_cons, along_nil, length_stmtsSites, Nat.zero_add, and_true] at hsites
  obtain ⟨hbody, hlast, -⟩ := hsites
  have hend : unitShapes u.isSub u.origin body (Spot.start.ip + stmtsSize body) = some Spot.start.shape := by
    rw [Spot.start, Nat.zero_add]
    exact hlast
  have hwalks : Walks u.code (unitShapes u.isSub u.origin body) 0 0 (code ++ unitEnd u.isSub) := by
    refine along_append.mpr ⟨walks_lowerStmts (p := .start) body hcode (along_append.mp hlies).1 hbody hend
      (contextFits_ofUnit ..), walks_of_still ?_⟩
    simp only [unitEnd, AllStill.cons, AllStill.nil, and_true]
    exact ⟨by cases u.isSub <;> trivial, trivial⟩
  rw [hu, List.getElem?_toArray] at hi
  have hat := hwalks ip i hi
  rwa [Nat.zero_add] at hat

end Code

end KestrelLang
