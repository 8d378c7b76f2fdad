import KestrelLang.Proofs.Code.Site

/-! # Flow of shapes through lowered code

* `Operation.targets` — where an operation may send the frame.
* `LiesAt` — a list stands at an address.
* `OperationFits` — what an instruction demands of the shape at its address and of the shapes at the
  addresses where the frame may go on.
* `Flows` — every instruction of a stretch of code fits.
* `flows_lowerExpr`, `flows_lowerStmt`, … — lowered code fits the shapes of its sites. -/

namespace KestrelLang

/-- The target is an address of the frame's own code. -/
def JumpTarget.staysInside : JumpTarget → Bool
  | .exit => false
  | .to .. => true

/-- The targets to which an operation may send the frame: that of a verb, the landing of a call, and
    those of a dispatch point. -/
def Operation.targets : Operation CodeUnit → List JumpTarget
  | .jump target => [target]
  | .call _ _ landing => [landing]
  | .dispatch ⟨_, none, onward⟩ => [onward]
  | .dispatch ⟨_, some k, onward⟩ => [onward, k.after, k.recheck, k.bodyStart, k.entry]
  | _ => []

theorem DispatchTable.mem_targets {table : DispatchTable} {action : DispatchAction} {target : JumpTarget}
    (h : table.target? action = some target) : target ∈ (Operation.dispatch table : Operation CodeUnit).targets := by
  obtain ⟨label, k, onward⟩ := table
  cases k <;> cases action <;> cases h <;> simp [Operation.targets]

namespace Code

open KestrelLang.Label

/-! ## Lists at addresses -/

/-- Each entry of `xs`, which stand at `pos` and at the addresses after it, is as `P` says. -/
def Along {α : Type} (P : Nat → α → Prop) (pos : Nat) (xs : List α) : Prop :=
  ∀ i x, xs[i]? = some x → P (pos + i) x

section Along

variable {α : Type} {P : Nat → α → Prop} {pos : Nat} {x : α} {xs ys : List α}

@[simp] theorem along_nil : Along P pos [] := by
  intro i x h
  simp at h

@[simp] theorem along_cons : Along P pos (x :: xs) ↔ P pos x ∧ Along P (pos + 1) xs := by
  constructor
  · intro h
    refine ⟨h 0 x rfl, fun i y hy => ?_⟩
    rw [Nat.add_right_comm]
    exact h (i + 1) y (by simpa using hy)
  · rintro ⟨hx, hxs⟩ i y hy
    cases i with
    | zero => simp_all
    | succ i =>
      rw [← Nat.add_assoc, Nat.add_right_comm]
      exact hxs i y (by simpa using hy)

@[simp] theorem along_append :
    Along P pos (xs ++ ys) ↔ Along P pos xs ∧ Along P (pos + xs.length) ys := by
  induction xs generalizing pos with
  | nil => simp
  | cons x xs ih =>
    simp only [List.cons_append, along_cons, ih, List.length_cons, and_assoc]
    rw [Nat.add_right_comm, Nat.add_assoc]

end Along

abbrev LiesAt {α : Type} (table : Nat → Option α) (pos : Nat) (xs : List α) : Prop :=
  Along (fun ip x => table ip = some x) pos xs

theorem liesAt_self {α : Type} (xs : List α) : LiesAt (xs[·]?) 0 xs := by
  intro i x h
  simpa using h

/-! ## What instructions demand -/

/-- A target is at home in a frame of shape `s`: the frame has the target's scopes and iterators open,
    and with an empty stack it has the shape that `shapes` gives for the address. -/
def TargetFits (shapes : Nat → Option Shape) (s : Shape) : JumpTarget → Prop
  | .exit => True
  | .to ip scopes iters => scopes ≤ s.scopes ∧ iters ≤ s.iters ∧ shapes ip = some ⟨0, scopes, iters⟩

/-- An instruction at `ip` finds in a frame of shape `s` what it takes, and leaves the shapes that
    `shapes` gives for the addresses where the frame goes on. -/
def OperationFits (shapes : Nat → Option Shape) (ip : Nat) (s : Shape) : Operation CodeUnit → Prop
  | .const _ | .load _ | .result | .makeSub _ => shapes (ip + 1) = some { s with height := s.height + 1 }
  | .declare _ | .store _ | .unary _ => 1 ≤ s.height ∧ shapes (ip + 1) = some s
  | .dup => 1 ≤ s.height ∧ shapes (ip + 1) = some { s with height := s.height + 1 }
  | .dup2 => 2 ≤ s.height ∧ shapes (ip + 1) = some { s with height := s.height + 2 }
  | .pop | .popResult => 1 ≤ s.height ∧ shapes (ip + 1) = some { s with height := s.height - 1 }
  | .binary _ | .indexGet => 2 ≤ s.height ∧ shapes (ip + 1) = some { s with height := s.height - 1 }
  | .makeArray count =>
    count ≤ s.height ∧ shapes (ip + 1) = some { s with height := s.height - count + 1 }
  | .indexSet => 3 ≤ s.height ∧ shapes (ip + 1) = some { s with height := s.height - 2 }
  | .branch target => shapes target = some s
  | .branchIfFalse target | .branchIfTrue target =>
    1 ≤ s.height ∧ shapes (ip + 1) = some { s with height := s.height - 1 } ∧
      shapes target = some { s with height := s.height - 1 }
  | .enterScope => shapes (ip + 1) = some { s with scopes := s.scopes + 1 }
  | .exitScope => 1 ≤ s.scopes ∧ shapes (ip + 1) = some { s with scopes := s.scopes - 1 }
  | .iterInit =>
    1 ≤ s.height ∧ shapes (ip + 1) = some { s with height := s.height - 1, iters := s.iters + 1 }
  | .iterNext target => 1 ≤ s.iters ∧ shapes (ip + 1) = some s ∧ shapes target = some s
  | .iterBind _ => 1 ≤ s.iters ∧ shapes (ip + 1) = some s
  | .iterPop => 1 ≤ s.iters ∧ shapes (ip + 1) = some { s with iters := s.iters - 1 }
  | .call _ count landing =>
    count + 1 ≤ s.height ∧ shapes (ip + 1) = some { s with height := s.height - count } ∧
      TargetFits shapes s landing
  | .ret => 1 ≤ s.height
  | .jump target => TargetFits shapes s target
  | .signal _ => True
  | .dispatch table =>
    shapes (ip + 1) = some s ∧ TargetFits shapes s table.onward ∧
      (∀ targets, table.targets = some targets → ∀ kind,
        (targets.of kind).staysInside ∧ TargetFits shapes s (targets.of kind)) ∧
      (table.label ≠ "" → table.targets.isSome)
  | .tailCall count reuse => 1 + (if reuse then 0 else count) ≤ s.height

theorem OperationFits.target_fits {shapes : Nat → Option Shape} {ip : Nat} {s : Shape} {op : Operation CodeUnit}
    (h : OperationFits shapes ip s op) {target : JumpTarget} (htarget : target ∈ op.targets) :
    TargetFits shapes s target := by
  cases op with
  | jump =>
    obtain rfl := List.mem_singleton.mp htarget
    exact h
  | call =>
    obtain rfl := List.mem_singleton.mp htarget
    exact h.2.2
  | dispatch table =>
    obtain ⟨label, k, onward⟩ := table
    obtain ⟨-, honward, hk, -⟩ := h
    cases k with
    | none =>
      obtain rfl := List.mem_singleton.mp htarget
      exact honward
    | some k =>
      have hall : ∀ kind, TargetFits shapes s (k.of kind) := fun kind => (hk k rfl kind).2
      simp only [Operation.targets, List.mem_cons, List.not_mem_nil, or_false] at htarget
      rcases htarget with rfl | rfl | rfl | rfl | rfl
      · exact honward
      · exact hall .exit
      · exact hall .proceed
      · exact hall .restart
      · exact hall .jump
  | _ => cases htarget

/-- Every instruction of `code`, which stands at `pos`, fits the shape at its address. -/
abbrev Flows (shapes : Nat → Option Shape) (pos : Nat) (code : Instructions) : Prop :=
  Along (fun ip i => ∃ s, shapes ip = some s ∧ OperationFits shapes ip s i.op) pos code

/-- The sites `sites` have the shapes that stand in `shapes` at `pos` and at the addresses after it. -/
abbrev Shaped (shapes : Nat → Option Shape) (pos : Nat) (sites : List Site) : Prop :=
  Along (fun ip s => shapes ip = some s.toShape) pos sites

theorem Spot.skip_add (p : Spot) (m n : Nat) : p.skip (m + n) = (p.skip m).skip n := by
  simp [Spot.skip, Nat.add_assoc]

/-! ## Expressions -/

section Entry

variable {shapes : Nat → Option Shape} {pos : Nat} {s : Site}

theorem Shaped.of_append_left {first second : List Site} (h : Shaped shapes pos (first ++ second)) :
    Shaped shapes pos first :=
  (along_append.mp h).1

/-- The code of an expression begins at the site of the expression. -/
theorem entry_expr (e : Expr) (h : Shaped shapes pos (exprSites s e)) :
    shapes pos = some s.toShape := by
  match e with
  | .missing | .undefined _ | .int .. | .float .. | .str .. | .ident .. | .closure .. =>
    simpa [exprSites] using h
  | .array [] _ => simpa [exprSites, exprsSites] using h
  | .array (element :: _) _ =>
    rw [exprSites, exprsSites, List.append_assoc] at h
    exact entry_expr element h.of_append_left
  | .index object _ _ =>
    rw [exprSites, List.append_assoc] at h
    exact entry_expr object h.of_append_left
  | .unary _ operand _ =>
    rw [exprSites] at h
    exact entry_expr operand h.of_append_left
  | .binary op left _ _ =>
    refine entry_expr left ?_
    cases op <;> rw [exprSites, List.append_assoc] at h <;> first | exact h.of_append_left | simp
  -- An assignment begins with its object, with the load of a compound one, or with its right side.
  | .assign op left right _ =>
    cases hop : op.binary?.isSome <;> cases left
    case false.index object _ _ | true.index object _ _ =>
      rw [exprSites] at h
      simp only [List.append_assoc] at h
      exact entry_expr object h.of_append_left
    all_goals simp only [exprSites, hop, siteIf, oneIf, if_true, if_false, Bool.false_eq_true,
      List.nil_append, List.cons_append, List.append_assoc, along_cons] at h
    all_goals first | exact h.1 | exact entry_expr right h.of_append_left
  | .call callee _ _ =>
    rw [exprSites, List.append_assoc] at h
    exact entry_expr callee h.of_append_left

/-- The code of several expressions begins where the first of them does; without any, it is where the
    code after it begins. -/
theorem entry_exprs (es : List Expr) (h : Shaped shapes pos (exprsSites s es))
    (hend : shapes (pos + exprsSize es) = some (s.up es.length).toShape) :
    shapes pos = some s.toShape := by
  cases es with
  | nil => simpa [exprsSize] using hend
  | cons e es =>
    rw [exprsSites] at h
    exact entry_expr e h.of_append_left

end Entry

mutual

/-- The code of an expression fits the shapes of its sites, and leaves one value more. -/
theorem flows_lowerExpr {c : Context} {p : Spot} {code : Instructions} {b b' : Build}
    {shapes : Nat → Option Shape} {s : Site} (e : Expr) (h : lowerExpr c p e b = .ok (code, b'))
    (hsites : Shaped shapes p.ip (exprSites s e))
    (hend : shapes (p.ip + e.size) = some (s.up 1).toShape)
    (hland : TargetFits shapes s.toShape c.landing) : Flows shapes p.ip code := by
  match e with
  | .missing | .undefined _ | .int .. | .float .. | .str .. | .ident .. =>
    simp only [lowerExpr, Lower.pure_eq_ok] at h
    obtain ⟨rfl, rfl⟩ := h
    simp only [along_cons, along_nil, and_true]
    exact ⟨_, entry_expr _ hsites, hend⟩
  | .array elements _ =>
    simp only [lowerExpr, Lower.bind_eq_ok, Lower.pure_eq_ok] at h
    obtain ⟨values, b₁, h₁, rfl, rfl⟩ := h
    simp only [exprSites, along_append, along_cons, along_nil, length_exprsSites, and_true] at hsites
    obtain ⟨helements, hmake⟩ := hsites
    simp only [along_append, along_cons, along_nil, length_lowerExprs _ h₁, and_true]
    refine ⟨flows_lowerExprs elements h₁ helements hmake hland, _, hmake, Nat.le_add_left .., ?_⟩
    simpa [Expr.size, Site.up, ← Nat.add_assoc] using hend
  | .index object index _ =>
    simp only [lowerExpr, Lower.bind_eq_ok, Lower.pure_eq_ok] at h
    obtain ⟨first, b₁, h₁, second, b₂, h₂, rfl, rfl⟩ := h
    simp only [exprSites, along_append, along_cons, along_nil, List.length_append, length_exprSites,
      and_true, ← Nat.add_assoc] at hsites
    obtain ⟨⟨hobject, hindex⟩, hget⟩ := hsites
    simp only [Expr.size, ← Nat.add_assoc] at hend
    simp only [along_append, along_cons, along_nil, List.length_append, length_lowerExpr _ h₁,
      length_lowerExpr _ h₂, and_true, ← Nat.add_assoc]
    exact ⟨⟨flows_lowerExpr object h₁ hobject (entry_expr _ hindex) hland,
      flows_lowerExpr index h₂ hindex hget hland⟩, _, hget, Nat.le_add_left .., hend⟩
  | .unary _ operand _ =>
    simp only [lowerExpr, Lower.bind_eq_ok, Lower.pure_eq_ok] at h
    obtain ⟨value, b₁, h₁, rfl, rfl⟩ := h
    simp only [exprSites, along_append, along_cons, along_nil, length_exprSites, and_true] at hsites
    obtain ⟨hoperand, hop⟩ := hsites
    simp only [Expr.size, ← Nat.add_assoc] at hend
    simp only [along_append, along_cons, along_nil, length_lowerExpr _ h₁, and_true]
    exact ⟨flows_lowerExpr operand h₁ hoperand hop hland, _, hop, Nat.le_add_left .., hend⟩
  | .binary op left right span =>
    obtain ⟨first, b₁, second, test, h₁, h₂, hop, rfl⟩ | ⟨hand, hor, first, b₁, second, h₁, h₂, rfl⟩ :=
      lowerExpr_binary h
    · -- The test keeps the left value where it branches and drops it where it does not.
      have hsplit : exprSites s (.binary op left right span) =
          exprSites s left ++ [s.up 1, s.up 2, s.up 1] ++ exprSites s right := by
        rcases hop with ⟨rfl, -⟩ | ⟨rfl, -⟩ <;> rw [exprSites]
      have hsize : (Expr.binary op left right span).size = left.size + 3 + right.size := by
        rcases hop with ⟨rfl, -⟩ | ⟨rfl, -⟩ <;> rw [Expr.size]
      simp only [hsplit, along_append, along_cons, along_nil, List.length_append, length_exprSites,
        List.length_cons, List.length_nil, and_true, ← Nat.add_assoc] at hsites
      obtain ⟨⟨hleft, hdup, htest, hpop⟩, hright⟩ := hsites
      simp only [hsize, ← Nat.add_assoc] at hend
      simp only [along_append, along_cons, along_nil, List.length_append, length_lowerExpr _ h₁,
        List.length_cons, List.length_nil, and_true, ← Nat.add_assoc]
      refine ⟨⟨flows_lowerExpr left h₁ hleft hdup hland, ⟨_, hdup, Nat.le_add_left .., htest⟩,
        ⟨_, htest, ?_⟩, _, hpop, Nat.le_add_left .., entry_expr _ hright⟩,
        flows_lowerExpr right h₂ hright hend hland⟩
      rcases hop with ⟨-, rfl⟩ | ⟨-, rfl⟩ <;> exact ⟨Nat.le_add_left .., hpop, hend⟩
    · simp only [exprSites_binary s hand hor, along_append, along_cons, along_nil, List.length_append,
        length_exprSites, and_true, ← Nat.add_assoc] at hsites
      obtain ⟨⟨hleft, hright⟩, hop⟩ := hsites
      simp only [size_binary hand hor, ← Nat.add_assoc] at hend
      simp only [along_append, along_cons, along_nil, List.length_append, length_lowerExpr _ h₁,
        length_lowerExpr _ h₂, and_true, ← Nat.add_assoc]
      exact ⟨⟨flows_lowerExpr left h₁ hleft (entry_expr _ hright) hland,
        flows_lowerExpr right h₂ hright hop hland⟩, _, hop, Nat.le_add_left .., hend⟩
  | .assign op left right span =>
    match left with
    | .ident name place =>
      obtain ⟨value, h₁, rfl⟩ := lowerExpr_assignName h
      -- Both ways to store leave the value, which is that of the assignment.
      have hlast : ∀ ip, shapes ip = some (s.up 1).toShape → shapes (ip + 1) = some (s.up 1).toShape →
          ∃ s, shapes ip = some s ∧
            OperationFits shapes ip s (if op = .declare then .declare name else .store name) := by
        intro ip hip hnext
        refine ⟨_, hip, ?_⟩
        split <;> exact ⟨Nat.le_add_left .., hnext⟩
      cases hb : op.binary? with
      | none =>
        simp only [hb, Option.isSome_none, oneIf, Bool.false_eq_true, if_false] at h₁
        simp only [exprSites, Expr.size, hb, siteIf, oneIf, Option.isSome_none, Bool.false_eq_true,
          if_false, List.nil_append, List.append_nil, Nat.zero_add, Nat.add_zero, Site.up_zero,
          along_append, along_cons, along_nil, length_exprSites, and_true, ← Nat.add_assoc]
          at hsites hend
        obtain ⟨hright, hstore⟩ := hsites
        simp only [nameAssignment, hb, along_append, along_cons, along_nil, length_lowerExpr _ h₁,
          and_true]
        exact ⟨flows_lowerExpr right h₁ hright hstore hland, hlast _ hstore hend⟩
      | some f =>
        simp only [hb, Option.isSome_some, oneIf, if_true] at h₁
        simp only [exprSites, Expr.size, hb, siteIf, oneIf, Option.isSome_some, if_true,
          List.cons_append, List.nil_append, along_append, along_cons, along_nil, length_exprSites,
          List.length_append, List.length_cons, List.length_nil, Nat.zero_add, and_true,
          ← Nat.add_assoc] at hsites hend
        obtain ⟨hload, ⟨hright, hop⟩, hstore⟩ := hsites
        simp only [nameAssignment, hb, List.cons_append, List.nil_append, List.append_assoc,
          along_append, along_cons, along_nil, length_lowerExpr _ h₁, and_true]
        exact ⟨⟨_, hload, entry_expr _ hright⟩, flows_lowerExpr right h₁ hright hop hland,
          ⟨_, hop, Nat.le_add_left .., hstore⟩, hlast _ hstore hend⟩
    | .index object index place =>
      obtain ⟨first, b₁, second, b₂, value, h₁, h₂, h₃, rfl⟩ := lowerExpr_assignElement h
      cases hb : op.binary? with
      | none =>
        simp only [hb, Option.isSome_none, Bool.false_eq_true, if_false, Nat.add_zero,
          Spot.skip_add] at h₃
        simp only [exprSites, Expr.size, hb, siteIf, oneIf, Option.isSome_none, Bool.false_eq_true,
          if_false, List.append_nil, Nat.add_zero, along_append, along_cons, along_nil,
          List.length_append, length_exprSites, and_true, ← Nat.add_assoc] at hsites hend
        obtain ⟨⟨⟨hobject, hindex⟩, hright⟩, hset⟩ := hsites
        simp only [elementAssignment, hb, along_append, along_cons, along_nil, List.length_append,
          length_lowerExpr _ h₁, length_lowerExpr _ h₂, length_lowerExpr _ h₃, and_true,
          ← Nat.add_assoc]
        exact ⟨⟨flows_lowerExpr object h₁ hobject (entry_expr _ hindex) hland,
          flows_lowerExpr index h₂ hindex (entry_expr _ hright) hland⟩,
          flows_lowerExpr right h₃ hright hset hland, _, hset, Nat.le_add_left .., hend⟩
      | some f =>
        simp only [hb, Option.isSome_some, if_true, Spot.skip_add] at h₃
        simp only [exprSites, Expr.size, hb, siteIf, oneIf, Option.isSome_some, if_true,
          along_append, along_cons, along_nil, List.length_append, List.length_cons, List.length_nil,
          length_exprSites, Nat.zero_add, and_true, ← Nat.add_assoc] at hsites hend
        obtain ⟨⟨⟨⟨⟨hobject, hindex⟩, hdup, hget⟩, hright⟩, hop⟩, hset⟩ := hsites
        simp only [elementAssignment, hb, List.cons_append, List.nil_append, List.append_assoc,
          along_append, along_cons, along_nil, length_lowerExpr _ h₁, length_lowerExpr _ h₂,
          length_lowerExpr _ h₃, and_true]
        exact ⟨flows_lowerExpr object h₁ hobject (entry_expr _ hindex) hland,
          flows_lowerExpr index h₂ hindex hdup hland, ⟨_, hdup, Nat.le_add_left .., hget⟩,
          ⟨_, hget, by simp [Site.up], entry_expr _ hright⟩,
          flows_lowerExpr right h₃ hright hop hland,
          ⟨_, hop, by simp [Site.up], hset⟩, _, hset, Nat.le_add_left .., hend⟩
    | .missing | .str .. | .int .. | .float .. | .undefined _ | .array .. | .unary .. | .binary ..
    | .assign .. | .call .. | .closure .. => exact absurd h (lowerExpr_assignOther nofun nofun)
  | .call callee args _ =>
    simp only [lowerExpr, Lower.bind_eq_ok, Lower.pure_eq_ok] at h
    obtain ⟨first, b₁, h₁, second, b₂, h₂, rfl, rfl⟩ := h
    simp only [exprSites, along_append, along_cons, along_nil, List.length_append, length_exprSites,
      length_exprsSites, and_true, ← Nat.add_assoc] at hsites
    obtain ⟨⟨hcallee, hargs⟩, hcall⟩ := hsites
    -- The call finds its callee below the arguments, and leaves one value in place of them all.
    have hlast : shapes (p.ip + callee.size + exprsSize args) =
        some ((s.up 1).up args.length).toShape := by
      simpa using hcall
    simp only [along_append, along_cons, along_nil, List.length_append, length_lowerExpr _ h₁,
      length_lowerExprs _ h₂, and_true, ← Nat.add_assoc]
    refine ⟨⟨flows_lowerExpr callee h₁ hcallee (entry_exprs args hargs hlast) hland,
      flows_lowerExprs args h₂ hargs hlast hland⟩, _, hcall, ?_, ?_, hland⟩
    · simp only [Site.up]
      omega
    · simp only [Expr.size, ← Nat.add_assoc] at hend
      simpa [Site.up, ← Nat.add_assoc] using hend
  | .closure params body _ =>
    simp only [lowerExpr, Lower.bind_eq_ok, Lower.pure_eq_ok] at h
    obtain ⟨unit, b₁, h₁, _, b₂, h₂, rfl, rfl⟩ := h
    simp only [along_cons, along_nil, and_true]
    exact ⟨_, entry_expr _ hsites, hend⟩

theorem flows_lowerExprs {c : Context} {p : Spot} {code : Instructions} {b b' : Build}
    {shapes : Nat → Option Shape} {s : Site} (es : List Expr)
    (h : lowerExprs c p es b = .ok (code, b')) (hsites : Shaped shapes p.ip (exprsSites s es))
    (hend : shapes (p.ip + exprsSize es) = some (s.up es.length).toShape)
    (hland : TargetFits shapes s.toShape c.landing) : Flows shapes p.ip code := by
  match es with
  | [] =>
    simp only [lowerExprs, Lower.pure_eq_ok] at h
    simp [h]
  | e :: es =>
    simp only [lowerExprs, Lower.bind_eq_ok, Lower.pure_eq_ok] at h
    obtain ⟨first, b₁, h₁, rest, b₂, h₂, rfl, rfl⟩ := h
    simp only [exprsSites, along_append, length_exprSites] at hsites
    have hlast : shapes (p.ip + e.size + exprsSize es) = some ((s.up 1).up es.length).toShape := by
      simpa [exprsSize, Nat.add_assoc, Nat.add_comm 1] using hend
    simp only [along_append, length_lowerExpr _ h₁]
    exact ⟨flows_lowerExpr e h₁ hsites.1 (entry_exprs es hsites.2 hlast) hland,
      flows_lowerExprs es h₂ hsites.2 hlast hland⟩

end

end Code

end KestrelLang
