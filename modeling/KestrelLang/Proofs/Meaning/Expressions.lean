import KestrelLang.Proofs.Code.Flow
import KestrelLang.Proofs.Code.Indifference
import KestrelLang.Proofs.Meaning.Realization

/-! # The code of an expression computes its value

* `Activation.Gives` — a stretch of code leaves the value of an evaluation on the stack.
* `gives_load`, `gives_operate`, … — single instructions do.
* `closureUnit_eq` — the unit of a closure does not depend on where its body is lowered.
* `gives_expr`, `gives_exprs` — lowered expressions do. -/

namespace KestrelLang

open KestrelLang.Code KestrelLang.Label

namespace Activation

variable {a : Activation} {env : Nat}

/-- The code from `start` to `stop` does what `x` does, and leaves its value on the stack. -/
def Gives (a : Activation) (env : Nat) (x : Eval Value) (start stop : Nat) : Prop :=
  ∀ ⦃σ stack iters next⦄, a.Stands σ env stack iters start next → Realizes a.limits a.fuel x σ next
    fun v τ next' => a.Stands τ env (v :: stack) iters stop next'

/-- The code from `start` to `stop` does what `x` does, and leaves its `count` values on the stack. -/
def GivesAll (a : Activation) (env : Nat) (x : Eval (List Value)) (count start stop : Nat) : Prop :=
  ∀ ⦃σ stack iters next⦄, a.Stands σ env stack iters start next → Realizes a.limits a.fuel x σ next
    fun vs τ next' => vs.length = count ∧ a.Stands τ env (vs.reverse ++ stack) iters stop next'

/-! ## Instructions -/

section Instructions

variable {σ : Stage} {stack : List Value} {iters : List Iter} {ip : Nat} {next : Next} {name : String} {span : Span}
  {v w : Value}

theorem gives_value {op : Operation CodeUnit} (hi : a.unit.code[ip]? = some ⟨op, span⟩)
    (hexec : ∀ m : Machine, m.frame.env = env → m.exec a.limits ⟨op, span⟩ = m.advance (v :: m.frame.stack)) :
    a.Gives env (pure v) ip (ip + 1) := by
  intro σ stack iters next h
  have hgoes : Goes a.limits next (a.Stands σ env (v :: stack) iters (ip + 1)) := by
    refine h.goes hi h.quiet fun steps polls => ?_
    rw [hexec _ rfl]
    rfl
  exact hgoes.silently fun next' h' => .pure h'

theorem gives_load (hi : a.unit.code[ip]? = some (placed (.load name) span)) :
    a.Gives env (a.world.load env name span) ip (ip + 1) := by
  intro σ stack iters next h
  refine realizes_act h hi fun m hstack henv => ?_
  simp only [Machine.exec, placed, hstack, henv]
  cases m.thread.store.get? name env <;> rfl

theorem realizes_declare (h : a.Stands σ env (v :: stack) iters ip next)
    (hi : a.unit.code[ip]? = some (placed (.declare name) span)) :
    Realizes a.limits a.fuel (a.world.declare env name v span) σ next
      fun v τ next' => a.Stands τ env (v :: stack) iters (ip + 1) next' := by
  refine realizes_act h hi fun m hstack henv => ?_
  simp only [Machine.exec, placed, hstack, henv]

theorem realizes_assign (h : a.Stands σ env (v :: stack) iters ip next)
    (hi : a.unit.code[ip]? = some (placed (.store name) span)) :
    Realizes a.limits a.fuel (a.world.assign env name v span) σ next
      fun v τ next' => a.Stands τ env (v :: stack) iters (ip + 1) next' := by
  refine realizes_act h hi fun m hstack henv => ?_
  simp only [Machine.exec, placed, hstack, henv]

theorem realizes_operate {op : BinaryOp} (h : a.Stands σ env (w :: v :: stack) iters ip next)
    (hi : a.unit.code[ip]? = some (placed (.binary op) span)) :
    Realizes a.limits a.fuel (a.world.operate op v w span) σ next
      fun v τ next' => a.Stands τ env (v :: stack) iters (ip + 1) next' := by
  refine realizes_act h hi fun m hstack henv => ?_
  simp only [Machine.exec, placed, hstack]
  obtain ⟨_ | _, _⟩ := binaryOp m.thread.store op v w <;> rfl

theorem realizes_unary {op : UnaryOp} (h : a.Stands σ env (v :: stack) iters ip next)
    (hi : a.unit.code[ip]? = some (placed (.unary op) span)) :
    Realizes a.limits a.fuel (a.world.act span fun s => (unaryOp s op v, s)) σ next
      fun v τ next' => a.Stands τ env (v :: stack) iters (ip + 1) next' := by
  refine realizes_act h hi fun m hstack henv => ?_
  simp only [Machine.exec, placed, hstack]
  cases unaryOp m.thread.store op v <;> rfl

theorem realizes_newArray {values : List Value} (h : a.Stands σ env (values.reverse ++ stack) iters ip next)
    (hi : a.unit.code[ip]? = some (bare (.makeArray values.length))) :
    Realizes a.limits a.fuel
      (a.world.act .zero fun s => (.ok (.array (s.newArray values.toArray).1), (s.newArray values.toArray).2)) σ next
      fun v τ next' => a.Stands τ env (v :: stack) iters (ip + 1) next' := by
  refine realizes_act h hi fun m hstack henv => ?_
  simp only [Machine.exec, bare, hstack, popMany?_reverse_append]

theorem realizes_fetch (h : a.Stands σ env (w :: v :: stack) iters ip next)
    (hi : a.unit.code[ip]? = some (placed .indexGet span)) :
    Realizes a.limits a.fuel (a.world.fetch v w span) σ next
      fun v τ next' => a.Stands τ env (v :: stack) iters (ip + 1) next' := by
  refine realizes_act h hi fun m hstack henv => ?_
  simp only [Machine.exec, placed, hstack]
  cases indexGet m.thread.store v w <;> rfl

theorem realizes_put {new : Value} (h : a.Stands σ env (new :: w :: v :: stack) iters ip next)
    (hi : a.unit.code[ip]? = some (placed .indexSet span)) :
    Realizes a.limits a.fuel (a.world.put v w new span) σ next
      fun v τ next' => a.Stands τ env (v :: stack) iters (ip + 1) next' := by
  refine realizes_act h hi fun m hstack henv => ?_
  simp only [Machine.exec, placed, hstack]
  obtain ⟨_ | _, _⟩ := indexSet m.thread.store v w new <;> rfl

end Instructions

/-- The unit of a closure does not depend on the units made before it. -/
theorem closureUnit_eq {origin : String} {params : List Name} {body : Block} {span : Span} {unit : CodeUnit}
    {b b' : Build} (h : lowerBody (.ofUnit true origin) "" params span body b = .ok (unit, b')) :
    closureUnit origin params body span = unit := by
  obtain ⟨d, hd, -⟩ := (closed_indifferent _).lowerBody body (List.Subset.refl _) _ _ _ h ⟨[], [], [], []⟩
    (List.nil_subset _)
  rw [closureUnit, hd]

/-! ## Expressions -/

/-- A short-circuit operator: the left value decides, or it is dropped for the right one. -/
theorem gives_shortCircuit {op : BinaryOp} {test : Nat → Operation CodeUnit} {x y : Eval Value} {span : Span}
    {start middle stop : Nat}
    (hop : op = .and ∧ test = Operation.branchIfFalse ∨ op = .or ∧ test = Operation.branchIfTrue)
    (hx : a.Gives env x start middle) (hdup : a.unit.code[middle]? = some (bare .dup))
    (htest : a.unit.code[middle + 1]? = some (bare (test stop)))
    (hpop : a.unit.code[middle + 1 + 1]? = some (bare .pop)) (hy : a.Gives env y (middle + 1 + 1 + 1) stop) :
    a.Gives env (do
      let v ← x
      let s ← Eval.store
      if op = .and && !v.truthy s || op = .or && v.truthy s then return v
      let w ← y
      if op = .and || op = .or then return w
      a.world.operate op v w span) start stop := by
  intro σ stack iters next h
  refine (hx h).bind fun v σ₁ next₁ _ h₁ => ?_
  refine (h₁.dup hdup).silently fun next₂ h₂ => ?_
  -- Only the deciding value stays; otherwise the left one gives way to the right one.
  have hright : ∀ next₃, a.Stands σ₁ env (v :: stack) iters (middle + 1 + 1) next₃ →
      Realizes a.limits a.fuel (y >>= pure) σ₁ next₃
        fun v τ next' => a.Stands τ env (v :: stack) iters stop next' := by
    intro next₃ h₃
    refine (h₃.pop hpop).silently fun next₄ h₄ => ?_
    exact (hy h₄).bind fun w σ₂ next₅ _ h₅ => .pure h₅
  obtain ⟨rfl, rfl⟩ | ⟨rfl, rfl⟩ := hop
  · refine (h₂.branchIfFalse htest).silently fun next₃ h₃ => ?_
    refine Realizes.store ?_
    cases hv : v.truthy σ₁.thread.store
    · rw [hv] at h₃
      exact .pure h₃
    · rw [hv] at h₃
      exact hright next₃ h₃
  · refine (h₂.branchIfTrue htest).silently fun next₃ h₃ => ?_
    refine Realizes.store ?_
    cases hv : v.truthy σ₁.thread.store
    · rw [hv] at h₃
      exact hright next₃ h₃
    · rw [hv] at h₃
      exact .pure h₃

mutual

theorem gives_expr {a : Activation} {env : Nat} {c : Context} {p : Spot} {code : Instructions} {b b' : Build}
    (e : Expr) (h : lowerExpr c p e b = .ok (code, b')) (hcode : LiesAt (a.unit.code[·]?) p.ip code)
    (horigin : c.origin = a.unit.origin) :
    a.Gives env (evalExpr a.world env e) p.ip (p.ip + e.size) := by
  match e with
  | .missing | .undefined _ | .int .. | .float .. | .str .. =>
    simp only [lowerExpr, Lower.pure_eq_ok] at h
    obtain ⟨rfl, rfl⟩ := h
    rw [evalExpr]
    exact gives_value (along_cons.mp hcode).1 fun _ _ => rfl
  | .ident name span =>
    simp only [lowerExpr, Lower.pure_eq_ok] at h
    obtain ⟨rfl, rfl⟩ := h
    rw [evalExpr]
    exact gives_load (along_cons.mp hcode).1
  | .array elements _ =>
    simp only [lowerExpr, Lower.bind_eq_ok, Lower.pure_eq_ok] at h
    obtain ⟨values, b₁, h₁, rfl, rfl⟩ := h
    simp only [along_append, along_cons, along_nil, length_lowerExprs _ h₁, and_true] at hcode
    obtain ⟨hvalues, hmake⟩ := hcode
    simp only [evalExpr, Expr.size, ← Nat.add_assoc]
    intro σ stack iters next h
    refine (gives_exprs elements h₁ hvalues horigin h).bind fun vs σ₁ next₁ _ ⟨hlength, hat⟩ => ?_
    exact realizes_newArray hat (hlength ▸ hmake)
  | .index object index span =>
    simp only [lowerExpr, Lower.bind_eq_ok, Lower.pure_eq_ok] at h
    obtain ⟨first, b₁, h₁, second, b₂, h₂, rfl, rfl⟩ := h
    simp only [along_append, along_cons, along_nil, List.length_append, length_lowerExpr _ h₁,
      length_lowerExpr _ h₂, and_true, ← Nat.add_assoc] at hcode
    obtain ⟨⟨hobject, hindex⟩, hget⟩ := hcode
    simp only [evalExpr, Expr.size, ← Nat.add_assoc]
    intro σ stack iters next h
    refine (gives_expr object h₁ hobject horigin h).bind fun v σ₁ next₁ _ hv => ?_
    refine (gives_expr index h₂ hindex horigin hv).bind fun w σ₂ next₂ _ hw => ?_
    exact realizes_fetch hw hget
  | .unary op operand span =>
    simp only [lowerExpr, Lower.bind_eq_ok, Lower.pure_eq_ok] at h
    obtain ⟨value, b₁, h₁, rfl, rfl⟩ := h
    simp only [along_append, along_cons, along_nil, length_lowerExpr _ h₁, and_true] at hcode
    obtain ⟨hoperand, hop⟩ := hcode
    simp only [evalExpr, Expr.size, ← Nat.add_assoc]
    intro σ stack iters next h
    refine (gives_expr operand h₁ hoperand horigin h).bind fun v σ₁ next₁ _ hv => ?_
    exact realizes_unary hv hop
  | .binary op left right span =>
    rw [evalExpr]
    obtain ⟨first, b₁, second, test, h₁, h₂, hop, rfl⟩ | ⟨hand, hor, first, b₁, second, h₁, h₂, rfl⟩ :=
      lowerExpr_binary h
    · have hsize : (Expr.binary op left right span).size = left.size + 3 + right.size := by
        rcases hop with ⟨rfl, -⟩ | ⟨rfl, -⟩ <;> rw [Expr.size]
      simp only [along_append, along_cons, along_nil, List.length_append, length_lowerExpr _ h₁,
        List.length_cons, List.length_nil, and_true, ← Nat.add_assoc] at hcode
      obtain ⟨⟨hleft, hdup, htest, hpop⟩, hright⟩ := hcode
      simp only [hsize, ← Nat.add_assoc]
      exact gives_shortCircuit hop (gives_expr left h₁ hleft horigin) hdup htest hpop
        (gives_expr right h₂ hright horigin)
    · simp only [along_append, along_cons, along_nil, List.length_append, length_lowerExpr _ h₁,
        length_lowerExpr _ h₂, and_true, ← Nat.add_assoc] at hcode
      obtain ⟨⟨hleft, hright⟩, hop⟩ := hcode
      simp only [size_binary hand hor, ← Nat.add_assoc]
      simp only [hand, hor, decide_false, Bool.false_and, Bool.or_self, Bool.false_eq_true, if_false]
      intro σ stack iters next h
      refine (gives_expr left h₁ hleft horigin h).bind fun v σ₁ next₁ _ hv => ?_
      refine Realizes.store ?_
      refine (gives_expr right h₂ hright horigin hv).bind fun w σ₂ next₂ _ hw => ?_
      exact realizes_operate hw hop
  | .assign op (.ident name place) right span =>
    obtain ⟨value, h₁, rfl⟩ := lowerExpr_assignName h
    rw [evalExpr]
    cases hb : op.binary? with
    | none =>
      simp only [hb, Option.isSome_none, oneIf, Bool.false_eq_true, if_false] at h₁
      simp only [nameAssignment, hb, along_append, along_cons, along_nil, length_lowerExpr _ h₁, and_true] at hcode
      obtain ⟨hright, hlast⟩ := hcode
      simp only [Expr.size, hb, Option.isSome_none, oneIf, Bool.false_eq_true, if_false, Nat.zero_add, Nat.add_zero,
        ← Nat.add_assoc]
      intro σ stack iters next h
      refine (gives_expr right h₁ hright horigin h).bind fun v σ₁ next₁ _ hv => ?_
      by_cases hop : op = .declare
      · rw [if_pos hop] at hlast ⊢
        exact realizes_declare hv hlast
      · rw [if_neg hop] at hlast ⊢
        exact realizes_assign hv hlast
    | some f =>
      -- No compound operator declares.
      have hop : op ≠ .declare := by
        rintro rfl
        cases hb
      simp only [hb, Option.isSome_some, oneIf, if_true] at h₁
      simp only [nameAssignment, hb, hop, if_false, List.cons_append, List.nil_append, List.append_assoc,
        along_append, along_cons, along_nil, length_lowerExpr _ h₁, and_true] at hcode
      obtain ⟨hload, hright, hoperate, hstore⟩ := hcode
      simp only [Expr.size, hb, Option.isSome_some, oneIf, if_true, ← Nat.add_assoc]
      intro σ stack iters next h
      refine (gives_load hload h).bind fun old σ₁ next₁ _ hold => ?_
      refine (gives_expr right h₁ hright horigin hold).bind fun v σ₂ next₂ _ hv => ?_
      refine (realizes_operate hv hoperate).bind fun new σ₃ next₃ _ hnew => ?_
      exact realizes_assign hnew hstore
  | .assign op (.index object index place) right span =>
    obtain ⟨first, b₁, second, b₂, value, h₁, h₂, h₃, rfl⟩ := lowerExpr_assignElement h
    rw [evalExpr]
    cases hb : op.binary? with
    | none =>
      simp only [hb, Option.isSome_none, Bool.false_eq_true, if_false, Nat.add_zero, Spot.skip_add] at h₃
      simp only [elementAssignment, hb, along_append, along_cons, along_nil, List.length_append,
        length_lowerExpr _ h₁, length_lowerExpr _ h₂, length_lowerExpr _ h₃, and_true, ← Nat.add_assoc] at hcode
      obtain ⟨⟨hobject, hindex⟩, hright, hset⟩ := hcode
      simp only [Expr.size, hb, Option.isSome_none, oneIf, Bool.false_eq_true, if_false, Nat.add_zero,
        ← Nat.add_assoc]
      intro σ stack iters next h
      refine (gives_expr object h₁ hobject horigin h).bind fun o σ₁ next₁ _ ho => ?_
      refine (gives_expr index h₂ hindex horigin ho).bind fun i σ₂ next₂ _ hi => ?_
      refine (gives_expr right h₃ hright horigin hi).bind fun v σ₃ next₃ _ hv => ?_
      exact realizes_put hv hset
    | some f =>
      simp only [hb, Option.isSome_some, if_true, Spot.skip_add] at h₃
      simp only [elementAssignment, hb, List.cons_append, List.nil_append, List.append_assoc, along_append,
        along_cons, along_nil, length_lowerExpr _ h₁, length_lowerExpr _ h₂, length_lowerExpr _ h₃, and_true] at hcode
      obtain ⟨hobject, hindex, hdup, hget, hright, hoperate, hset⟩ := hcode
      simp only [Expr.size, hb, Option.isSome_some, oneIf, if_true, ← Nat.add_assoc]
      intro σ stack iters next h
      refine (gives_expr object h₁ hobject horigin h).bind fun o σ₁ next₁ _ ho => ?_
      refine (gives_expr index h₂ hindex horigin ho).bind fun i σ₂ next₂ _ hi => ?_
      -- Object and index are computed once: the copies serve to read the old value.
      refine (hi.dup2 hdup).silently fun next₃ hpair => ?_
      refine (realizes_fetch hpair hget).bind fun old σ₃ next₄ _ hold => ?_
      refine (gives_expr right h₃ hright horigin hold).bind fun v σ₄ next₅ _ hv => ?_
      refine (realizes_operate hv hoperate).bind fun new σ₅ next₆ _ hnew => ?_
      exact realizes_put hnew hset
  | .assign op .missing right _ | .assign op (.str ..) right _ | .assign op (.int ..) right _
  | .assign op (.float ..) right _ | .assign op (.undefined _) right _ | .assign op (.array ..) right _
  | .assign op (.unary ..) right _ | .assign op (.binary ..) right _ | .assign op (.assign ..) right _
  | .assign op (.call ..) right _ | .assign op (.closure ..) right _ =>
    exact absurd h (lowerExpr_assignOther nofun nofun)
  | .call callee args span =>
    simp only [lowerExpr, Lower.bind_eq_ok, Lower.pure_eq_ok] at h
    obtain ⟨first, b₁, h₁, second, b₂, h₂, rfl, rfl⟩ := h
    simp only [along_append, along_cons, along_nil, List.length_append, length_lowerExpr _ h₁,
      length_lowerExprs _ h₂, and_true, ← Nat.add_assoc] at hcode
    obtain ⟨⟨hcallee, hargs⟩, hcall⟩ := hcode
    simp only [evalExpr, Expr.size, ← Nat.add_assoc]
    intro σ stack iters next h
    refine (gives_expr callee h₁ hcallee horigin h).bind fun f σ₁ next₁ _ hf => ?_
    refine (gives_exprs args h₂ hargs horigin hf).bind fun vs σ₂ next₂ _ ⟨hlength, hat⟩ => ?_
    exact realizes_invoke hat (hlength ▸ hcall)
  | .closure params body span =>
    simp only [lowerExpr, Lower.bind_eq_ok, Lower.pure_eq_ok] at h
    obtain ⟨unit, b₁, h₁, _, b₂, h₂, rfl, rfl⟩ := h
    rw [horigin] at h₁
    rw [evalExpr]
    refine gives_value (along_cons.mp hcode).1 fun m henv => ?_
    rw [closureValue, show a.world.info.origin = a.unit.origin from rfl, closureUnit_eq h₁, ← henv]
    rfl

theorem gives_exprs {a : Activation} {env : Nat} {c : Context} {p : Spot} {code : Instructions} {b b' : Build}
    (es : List Expr) (h : lowerExprs c p es b = .ok (code, b')) (hcode : LiesAt (a.unit.code[·]?) p.ip code)
    (horigin : c.origin = a.unit.origin) :
    a.GivesAll env (evalExprs a.world env es) es.length p.ip (p.ip + exprsSize es) := by
  match es with
  | [] =>
    rw [evalExprs]
    exact fun _ _ _ _ h => .pure ⟨rfl, h⟩
  | e :: es =>
    simp only [lowerExprs, Lower.bind_eq_ok, Lower.pure_eq_ok] at h
    obtain ⟨first, b₁, h₁, rest, b₂, h₂, rfl, rfl⟩ := h
    simp only [along_append, length_lowerExpr _ h₁] at hcode
    simp only [evalExprs, exprsSize, ← Nat.add_assoc]
    intro σ stack iters next h
    refine (gives_expr e h₁ hcode.1 horigin h).bind fun v σ₁ next₁ _ hv => ?_
    refine (gives_exprs es h₂ hcode.2 horigin hv).bind fun vs σ₂ next₂ _ ⟨hlength, hat⟩ => .pure ⟨?_, ?_⟩
    · rw [List.length_cons, hlength, List.length_cons]
    · rw [List.reverse_cons, List.append_assoc]
      exact hat

end

end Activation

end KestrelLang
