import KestrelLang.Proofs.Meaning.Expressions

/-! # Where the code of a statement takes the frame

* `Activation.Home` — the environment and the iterators that belong to a spot of the code.
* `Opened`, `Activation.Inside` — environments inside one another; from inside, the jumps to scopes around
  come out at the same place.
* `Activation.Lands` — the frame has jumped to a target.
* `Activation.EndsAs` — how the end of a statement shows in the frame.
* `Activation.Runs` — a stretch of code does what a statement does. -/

namespace KestrelLang

open KestrelLang.Code KestrelLang.Label

/-! ## Environments -/

/-- The environment `inner` was opened inside `env`. -/
structure Opened (s : Store) (env inner : Nat) : Prop where
  parent : s.parent inner = some env
  older : env < inner
  inside : inner < s.envs.size

theorem opened_extend {s : Store} {env : Nat} (h : env < s.envs.size) : Opened (s.extend env).2 env (s.extend env).1 :=
  ⟨Store.parent_extend s env, h, by rw [Store.size_extend]; exact Nat.lt_succ_self _⟩

theorem Opened.grows {s s' : Store} {env inner : Nat} (h : Opened s env inner) (hgrows : s.Grows s') :
    Opened s' env inner :=
  ⟨(hgrows.parent h.inside).trans h.parent, h.older, Nat.lt_of_lt_of_le h.inside hgrows.size⟩

theorem Opened.unwind {s : Store} {env inner d : Nat} (h : Opened s env inner) (hd : d < s.depth inner) :
    s.unwind d inner = s.unwind d env := by
  rw [Store.unwind, if_neg (Nat.not_le.mpr hd)]
  simp only [h.parent, h.older, if_true]

theorem cutIters_length {iters : List Iter} {n : Nat} (h : iters.length = n) : cutIters n iters = iters := by
  rw [cutIters, h, Nat.sub_self, List.drop_zero]

theorem cutIters_cons {iters : List Iter} {n : Nat} (it : Iter) (h : n ≤ iters.length) :
    cutIters n (it :: iters) = cutIters n iters := by
  rw [cutIters, cutIters, List.length_cons, Nat.succ_sub h, List.drop_succ_cons]

/-- The continuations of a scope are addresses where at most `scopes` scopes and `count` iterators are open. -/
def Continuations.Within (k : Continuations) (scopes count : Nat) : Prop :=
  ∀ kind, ∃ ip n m, k.of kind = .to ip n m ∧ n ≤ scopes ∧ m ≤ count

theorem Continuations.Within.mono {k : Continuations} {scopes scopes' count count' : Nat}
    (h : k.Within scopes count) (hscopes : scopes ≤ scopes') (hcount : count ≤ count') : k.Within scopes' count' := by
  intro kind
  obtain ⟨ip, n, m, hk, hn, hm⟩ := h kind
  exact ⟨ip, n, m, hk, Nat.le_trans hn hscopes, Nat.le_trans hm hcount⟩

namespace Activation

variable {a : Activation} {s s' : Store} {σ : Stage} {env env' inner : Nat} {iters iters' : List Iter}
  {scopes count ip : Nat} {next : Next}

/-- With `env` and `iters` the frame has `scopes` scopes and `count` iterators open. -/
structure Home (a : Activation) (s : Store) (env : Nat) (iters : List Iter) (scopes count : Nat) : Prop where
  inside : env < s.envs.size
  depth : s.depth env = a.baseDepth + scopes
  iters : iters.length = count

theorem Home.grows (h : a.Home s env iters scopes count) (hgrows : s.Grows s') : a.Home s' env iters scopes count :=
  ⟨Nat.lt_of_lt_of_le h.inside hgrows.size, (hgrows.depth h.inside).trans h.depth, h.iters⟩

theorem Home.extend (h : a.Home s env iters scopes count) :
    a.Home (s.extend env).2 (s.extend env).1 iters (scopes + 1) count := by
  refine ⟨(opened_extend h.inside).inside, ?_, h.iters⟩
  rw [Store.depth_extend, h.depth, Nat.add_assoc]

theorem Home.push (h : a.Home s env iters scopes count) (it : Iter) :
    a.Home s env (it :: iters) scopes (count + 1) :=
  ⟨h.inside, h.depth, by rw [List.length_cons, h.iters]⟩

/-- Jumps that leave `scopes` scopes and `count` iterators open come out at the same place from within. -/
structure Inside (a : Activation) (s : Store) (env' : Nat) (iters' : List Iter) (env : Nat) (iters : List Iter)
    (scopes count : Nat) : Prop where
  unwind : ∀ n ≤ scopes, s.unwind (a.baseDepth + n) env' = s.unwind (a.baseDepth + n) env
  cut : ∀ n ≤ count, cutIters n iters' = cutIters n iters

theorem Inside.refl (a : Activation) (s : Store) (env : Nat) (iters : List Iter) (scopes count : Nat) :
    a.Inside s env iters env iters scopes count :=
  ⟨fun _ _ => rfl, fun _ _ => rfl⟩

theorem Home.inside_scope (h : a.Home s inner iters (scopes + 1) count) (hopened : Opened s env inner) :
    a.Inside s inner iters env iters scopes count := by
  refine ⟨fun n hn => hopened.unwind ?_, fun _ _ => rfl⟩
  rw [h.depth]
  omega

theorem Home.inside_iter (h : a.Home s env iters scopes count) (it : Iter) :
    a.Inside s env (it :: iters) env iters scopes count :=
  ⟨fun _ _ => rfl, fun _ hn => cutIters_cons it (h.iters ▸ hn)⟩

/-! ## Ends of statements -/

/-- The frame has jumped to a target inside the unit. -/
def Lands (a : Activation) (σ : Stage) (env : Nat) (iters : List Iter) (target : JumpTarget) (next : Next) : Prop :=
  match target with
  | .exit => False
  | .to ip scopes count =>
    a.Stands σ (σ.thread.store.unwind (a.baseDepth + scopes) env) [] (cutIters count iters) ip next

theorem Lands.here (h : a.Lands σ env iters (.to ip scopes count) next)
    (hhome : a.Home σ.thread.store env iters scopes count) : a.Stands σ env [] iters ip next := by
  rw [Lands, Store.unwind_of_le (Nat.le_of_eq hhome.depth), cutIters_length hhome.iters] at h
  exact h

theorem Lands.outward {n m : Nat} (h : a.Lands σ env' iters' (.to ip n m) next)
    (hinside : a.Inside σ.thread.store env' iters' env iters scopes count) (hn : n ≤ scopes) (hm : m ≤ count) :
    a.Lands σ env iters (.to ip n m) next := by
  rw [Lands, hinside.unwind n hn, hinside.cut m hm] at h
  exact h

/-- The frame has jumped out of the scopes that it was inside of. -/
theorem Lands.around {k : Continuations} {kind : MarkerKind} (h : a.Lands σ env' iters' (k.of kind) next)
    (hinside : a.Inside σ.thread.store env' iters' env iters scopes count) (hk : k.Within scopes count) :
    a.Lands σ env iters (k.of kind) next := by
  obtain ⟨ip, n, m, htarget, hn, hm⟩ := hk kind
  rw [htarget] at h ⊢
  exact h.outward hinside hn hm

/-- How the end of a statement shows: the frame stands at `ip`, it has jumped to a continuation of one of the
    scopes around it, or the run has ended. -/
def EndsAs (a : Activation) (around : List (OpenScope × Scope)) (env : Nat) (iters : List Iter) (ip : Nat) :
    Ending → Stage → Next → Prop
  | .normal, σ, next => a.Stands σ env [] iters ip next
  | .leaves scope kind, σ, next =>
    ∃ x ∈ around, x.2.id = scope ∧ a.Lands σ env iters (x.1.targets.of kind) next
  | .returns v, σ, next => Ended σ (.value v) next

variable {around : List (OpenScope × Scope)} {ending : Ending}

theorem EndsAs.store (h : a.EndsAs around env iters ip ending σ next) :
    next.machine.thread.store = σ.thread.store := by
  cases ending with
  | normal =>
    obtain ⟨_, _, rfl⟩ := h.shown
    rfl
  | leaves scope kind =>
    obtain ⟨x, -, -, hlands⟩ := h
    unfold Lands at hlands
    split at hlands
    · cases hlands
    · obtain ⟨_, _, rfl⟩ := hlands.shown
      rfl
  | returns v =>
    obtain ⟨m, rfl, hthread, -⟩ := h
    rw [← hthread]
    rfl

theorem EndsAs.outward {ip' : Nat} (h : a.EndsAs around env' iters' ip' ending σ next)
    (haround : ∀ x ∈ around, x.1.targets.Within scopes count)
    (hinside : a.Inside σ.thread.store env' iters' env iters scopes count)
    (hnormal : a.Stands σ env' [] iters' ip' next → Goes a.limits next (a.Stands σ env [] iters ip)) :
    ∃ next', Leads a.limits next next' ∧ a.EndsAs around env iters ip ending σ next' := by
  cases ending with
  | normal => exact (hnormal h).leads
  | leaves scope kind =>
    obtain ⟨x, hx, hid, hlands⟩ := h
    exact ⟨next, .refl next, x, hx, hid, hlands.around hinside (haround x hx)⟩
  | returns v => exact ⟨next, .refl next, h⟩

/-! ## Stretches of code -/

/-- The code from the spot `p` to `stop` does what `x` does in the environment that it finds. -/
def Runs (a : Activation) (around : List (OpenScope × Scope)) (p : Spot) (iters : List Iter) (x : Nat → Eval Ending)
    (stop : Nat) : Prop :=
  ∀ ⦃σ env next⦄, a.Home σ.thread.store env iters p.scopes p.iters → a.Stands σ env [] iters p.ip next →
    Realizes a.limits a.fuel (x env) σ next (a.EndsAs around env iters stop)

variable {p : Spot} {x y : Nat → Eval Ending} {stop stop' : Nat}

theorem runs_nothing (a : Activation) (around : List (OpenScope × Scope)) (p : Spot) (iters : List Iter) :
    a.Runs around p iters (fun _ => pure .normal) p.ip :=
  fun _ _ _ _ hat => .pure hat

theorem Runs.onward (h : a.Runs around p iters x stop)
    (hgoes : ∀ ⦃σ env next⦄, a.Stands σ env [] iters stop next → Goes a.limits next (a.Stands σ env [] iters stop')) :
    a.Runs around p iters x stop' := by
  intro σ env next hhome hat
  refine (h hhome hat).onward fun ending τ next' _ hends => ?_
  cases ending with
  | normal => exact (hgoes hends).leads
  | leaves scope kind => exact ⟨next', .refl next', hends⟩
  | returns v => exact ⟨next', .refl next', hends⟩

theorem Runs.andThen {n : Nat} (hx : a.Runs around p iters x (p.ip + n))
    (hy : a.Runs around (p.skip n) iters y stop) :
    a.Runs around p iters (fun env => do (← x env).andThen (y env)) stop := by
  intro σ env next hhome hat
  refine (hx hhome hat).bind fun ending τ next' hleads hends => ?_
  cases ending with
  | normal => exact hy (hhome.grows (hat.grows hends hleads)) hends
  | leaves scope kind => exact .pure hends
  | returns v => exact .pure hends

/-! ## Instructions -/

section Instructions

variable {stack : List Value} {v : Value}

theorem Stands.enterScope (h : a.Stands σ env stack iters ip next)
    (hi : a.unit.code[ip]? = some (bare .enterScope)) :
    Goes a.limits next (a.Stands { σ with thread := { σ.thread with store := (σ.thread.store.extend env).2 } }
      (σ.thread.store.extend env).1 stack iters (ip + 1)) :=
  h.goes hi h.quiet fun _ _ => rfl

theorem Stands.exitScope (h : a.Stands σ inner stack iters ip next) (hi : a.unit.code[ip]? = some (bare .exitScope))
    (hparent : σ.thread.store.parent inner = some env) :
    Goes a.limits next (a.Stands σ env stack iters (ip + 1)) := by
  refine h.goes hi h.quiet fun _ _ => ?_
  simp only [Machine.exec, bare, machine, hparent]
  rfl

theorem Stands.iterInit {span : Span} (h : a.Stands σ env (v :: stack) iters ip next)
    (hi : a.unit.code[ip]? = some (placed .iterInit span)) :
    Goes a.limits next (a.Stands σ env stack (Machine.iterOf σ.thread.store v :: iters) (ip + 1)) :=
  h.goes hi h.quiet fun _ _ => rfl

theorem Stands.iterNext {it : Iter} {ip' : Nat} (h : a.Stands σ env stack (it :: iters) ip next)
    (hi : a.unit.code[ip]? = some (bare (.iterNext ip'))) :
    Goes a.limits next fun next' =>
      match it.elements[it.next]? with
      | some v => a.Stands σ env stack ({ it with next := it.next + 1, current := v } :: iters) (ip + 1) next'
      | none => a.Stands σ env stack (it :: iters) ip' next' := by
  cases hv : it.elements[it.next]? with
  | some v =>
    refine h.goes hi h.quiet fun _ _ => ?_
    simp only [Machine.exec, bare, machine, hv]
    rfl
  | none =>
    refine h.goes hi h.quiet fun _ _ => ?_
    simp only [Machine.exec, bare, machine, hv]
    rfl

theorem Stands.iterBind {it : Iter} {name : String} (h : a.Stands σ env stack (it :: iters) ip next)
    (hi : a.unit.code[ip]? = some (bare (.iterBind name))) :
    Goes a.limits next (a.Stands { σ with thread := { σ.thread with
      store := σ.thread.store.define env name it.current } } env stack (it :: iters) (ip + 1)) :=
  h.goes hi h.quiet fun _ _ => rfl

theorem Stands.iterPop {it : Iter} (h : a.Stands σ env stack (it :: iters) ip next)
    (hi : a.unit.code[ip]? = some (bare .iterPop)) : Goes a.limits next (a.Stands σ env stack iters (ip + 1)) :=
  h.goes hi h.quiet fun _ _ => rfl

theorem Stands.jump {span : Span} {ip' : Nat} (h : a.Stands σ env stack iters ip next)
    (hi : a.unit.code[ip]? = some (placed (.jump (.to ip' scopes count)) span)) :
    Goes a.limits next (a.Lands σ env iters (.to ip' scopes count)) :=
  h.goes hi h.quiet fun _ _ => rfl

theorem Stands.ret {span : Span} (h : a.Stands σ env (v :: stack) iters ip next)
    (hi : a.unit.code[ip]? = some (placed .ret span)) : Goes a.limits next (Ended σ (.value v)) := by
  obtain ⟨m, steps, polls, rfl, hstep⟩ := h.exec hi
  refine ⟨m, rfl, _, hstep, rfl, rfl, rfl⟩

end Instructions

end Activation

end KestrelLang
