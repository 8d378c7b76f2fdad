import KestrelLang.Proofs.Meaning.Frames

/-! # Scopes and loops

* `realizes_round` — the body of a scope, with the scope opened and closed around it.
* `realizes_within` — a scope takes the verbs that aim at it and lets the others pass.
* `runs_bareBlock`, `runs_whileLoop`, `runs_forLoop`, `runs_foreachLoop` — the code of a loop does what the loop
  does, if the code of its parts does what they do. -/

namespace KestrelLang

open KestrelLang.Code KestrelLang.Label

namespace Activation

variable {a : Activation} {σ : Stage} {env : Nat} {iters : List Iter} {next : Next} {fuel : Nat}
  {around : List (OpenScope × Scope)} {o : OpenScope} {s : Scope} {p q : Spot} {stop : Nat}

/-! ## Scopes -/

/-- The body of a scope, with the scope opened and closed around it. The opening pays for one unit of fuel. -/
theorem realizes_round {body : Nat → Eval Ending} {f : Ending → Eval Ending} {R : Ending → Stage → Next → Prop}
    (hhome : a.Home σ.thread.store env iters q.scopes q.iters) (hat : a.Stands σ env [] iters q.ip next)
    (henter : a.unit.code[q.ip]? = some (bare .enterScope)) (hbody : a.Runs around (q.inner 1) iters body stop)
    (hexit : a.unit.code[stop]? = some (bare .exitScope))
    (haround : ∀ x ∈ around, x.1.targets.Within q.scopes q.iters) (hfuel : fuel ≤ a.fuel)
    (hrest : ∀ ending τ next', σ.thread.store.Grows τ.thread.store →
      a.EndsAs around env iters (stop + 1) ending τ next' → Realizes a.limits fuel (f ending) τ next' R) :
    Realizes a.limits (fuel + 1) ((Eval.extend env >>= body) >>= f) σ next R := by
  refine (hat.enterScope henter).pays fun next₁ _ h₁ => ?_
  have hinside := (hbody hhome.extend h₁).lower hfuel
  refine hinside.bind fun ending τ next₂ hleads hends => ?_
  have hgrows : (σ.thread.store.extend env).2.Grows τ.thread.store := by
    obtain ⟨_, _, rfl⟩ := h₁.shown
    rw [← hends.store]
    exact hleads.precedes.grows
  have hopened := (opened_extend hhome.inside).grows hgrows
  obtain ⟨next₃, hleads', hends'⟩ := hends.outward haround ((hhome.extend.grows hgrows).inside_scope hopened)
    fun hstands => hstands.exitScope hexit hopened.parent
  exact (hrest ending τ next₃ ((Store.Grows.extend ..).trans hgrows) hends').lead hleads'

theorem runs_block {body : Nat → Eval Ending} (henter : a.unit.code[p.ip]? = some (bare .enterScope))
    (hbody : a.Runs around (p.inner 1) iters body stop) (hexit : a.unit.code[stop]? = some (bare .exitScope))
    (haround : ∀ x ∈ around, x.1.targets.Within p.scopes p.iters) :
    a.Runs around p iters (fun env => Eval.extend env >>= body) (stop + 1) := by
  intro σ env next hhome hat
  dsimp only
  rw [← Eval.bind_pure (Eval.extend env >>= body)]
  refine Realizes.lower (Nat.le_succ a.fuel) ?_
  exact realizes_round hhome hat henter hbody hexit haround (Nat.le_refl _) fun ending τ next' _ hends => .pure hends

/-- A scope takes the verbs that aim at it, and lets all others pass. -/
theorem realizes_within {normal : Eval Ending} {verb : MarkerKind → Eval Ending} {env' scopes count ip ip' : Nat}
    {iters' : List Iter} {ending : Ending} (h : a.EndsAs ((o, s) :: around) env' iters' ip' ending σ next)
    (hfresh : ∀ x ∈ around, x.2.id ≠ s.id) (haround : ∀ x ∈ around, x.1.targets.Within scopes count)
    (hinside : a.Inside σ.thread.store env' iters' env iters scopes count)
    (hnormal : a.Stands σ env' [] iters' ip' next →
      Realizes a.limits fuel normal σ next (a.EndsAs around env iters ip))
    (hverb : ∀ kind, a.Lands σ env' iters' (o.targets.of kind) next →
      Realizes a.limits fuel (verb kind) σ next (a.EndsAs around env iters ip)) :
    Realizes a.limits fuel (ending.within s.id normal verb) σ next (a.EndsAs around env iters ip) := by
  cases ending with
  | normal => exact hnormal h
  | leaves scope kind =>
    obtain ⟨x, hx, rfl, hlands⟩ := h
    rw [Ending.within]
    obtain rfl | hx := List.mem_cons.mp hx
    · rw [if_pos rfl]
      exact hverb kind hlands
    · rw [if_neg (hfresh x hx)]
      exact .pure ⟨x, hx, rfl, hlands.around hinside (haround x hx)⟩
  | returns v => exact .pure h

theorem within_cons {scopes count scopes' count' : Nat} (hown : o.targets.Within scopes' count')
    (haround : ∀ x ∈ around, x.1.targets.Within scopes count) (hscopes : scopes ≤ scopes') (hcount : count ≤ count') :
    ∀ x ∈ (o, s) :: around, x.1.targets.Within scopes' count' := by
  intro x hx
  obtain rfl | hx := List.mem_cons.mp hx
  · exact hown
  · exact (haround x hx).mono hscopes hcount

/-! ## Bare blocks -/

theorem runs_bareBlock {body : Nat → Eval Ending} (hown : o.targets.Within p.scopes p.iters)
    (htargets : o.targets = ⟨.to (stop + 1) p.scopes p.iters, .to (stop + 1) p.scopes p.iters, p.target, p.target⟩)
    (hfresh : ∀ x ∈ around, x.2.id ≠ s.id) (haround : ∀ x ∈ around, x.1.targets.Within p.scopes p.iters)
    (henter : a.unit.code[p.ip]? = some (bare .enterScope))
    (hbody : a.Runs ((o, s) :: around) (p.inner 1) iters body stop)
    (hexit : a.unit.code[stop]? = some (bare .exitScope)) :
    a.Runs around p iters (fun env => cycle (bareBlock s.id (Eval.extend env >>= body)) a.fuel ()) (stop + 1) := by
  intro σ env next hhome hat
  -- A round ends the cycle, unless a verb sends the frame back to the start of the block.
  refine realizes_cycle (fun _ σ next =>
      a.Home σ.thread.store env iters p.scopes p.iters ∧ a.Stands σ env [] iters p.ip next)
    (fun h => h.2.running) ?_ (Nat.le_refl a.fuel) ⟨hhome, hat⟩
  rintro fuel hfuel again hagain ⟨⟩ σ next ⟨hhome, hat⟩
  refine realizes_round hhome hat henter hbody hexit
    (within_cons hown haround (Nat.le_refl _) (Nat.le_refl _)) (Nat.le_of_lt hfuel)
    fun ending τ next₁ hgrows hends => ?_
  have hhome₁ := hhome.grows hgrows
  refine realizes_within hends hfresh haround (.refl ..) (fun hstands => .pure hstands) fun kind hlands => ?_
  rw [htargets] at hlands
  cases kind with
  | exit | proceed | unknown _ => exact .pure (Lands.here hlands hhome₁)
  | restart | jump => exact hagain () τ next₁ ⟨hhome₁, Lands.here hlands hhome₁⟩

/-! ## Loops with a test -/

/-- The code from `start` does what `x` does; then a branch takes it to `yes` or to `no`. -/
def Tests (a : Activation) (env : Nat) (x : Eval Bool) (start yes no : Nat) : Prop :=
  ∀ ⦃σ stack iters next⦄, a.Stands σ env stack iters start next → Realizes a.limits a.fuel x σ next
    fun holds τ next' => Goes a.limits next' (a.Stands τ env stack iters (if holds then yes else no))

/-- One of two arms; after the first a branch takes the frame past the second. -/
theorem runs_choice {test : Nat → Eval Bool} {x y : Nat → Eval Ending} {m n middle : Nat}
    (htest : ∀ env, a.Tests env (test env) p.ip (p.ip + m) (p.ip + n))
    (hx : a.Runs around (p.skip m) iters x middle) (hleave : a.unit.code[middle]? = some (bare (.branch stop)))
    (hy : a.Runs around (p.skip n) iters y stop) :
    a.Runs around p iters (fun env => do if ← test env then x env else y env) stop := by
  intro σ env next hhome hat
  refine (htest env hat).bind fun holds τ next₁ hleads hgoes => ?_
  obtain ⟨next₂, hleads', hstands⟩ := hgoes.leads
  have hhome₂ := hhome.grows (hat.grows hstands (hleads.trans hleads'))
  refine Realizes.lead hleads' ?_
  cases holds with
  | true => exact hx.onward (fun _ _ _ hat => hat.branch hleave) hhome₂ hstands
  | false => exact hy hhome₂ hstands

/-- Where the frame stands at each place of such a loop; its test has `n` instructions. -/
def AtWhile (a : Activation) (env : Nat) (iters : List Iter) (p : Spot) (n : Nat) : WhilePlace → Stage → Next → Prop
  | .test, σ, next => a.Home σ.thread.store env iters p.scopes p.iters ∧ a.Stands σ env [] iters p.ip next
  | .round, σ, next => a.Home σ.thread.store env iters p.scopes p.iters ∧ a.Stands σ env [] iters (p.ip + n) next

theorem runs_whileLoop {test : Nat → Eval Bool} {body : Nat → Eval Ending} {n after : Nat}
    (hown : o.targets.Within p.scopes p.iters)
    (htargets : o.targets = ⟨.to after p.scopes p.iters, p.target, (p.skip n).target, p.target⟩)
    (hfresh : ∀ x ∈ around, x.2.id ≠ s.id) (haround : ∀ x ∈ around, x.1.targets.Within p.scopes p.iters)
    (htest : ∀ env, a.Tests env (test env) p.ip (p.ip + n) after)
    (henter : a.unit.code[p.ip + n]? = some (bare .enterScope))
    (hbody : a.Runs ((o, s) :: around) ((p.skip n).inner 1) iters body stop)
    (hexit : a.unit.code[stop]? = some (bare .exitScope))
    (hback : a.unit.code[stop + 1]? = some (bare (.branch p.ip))) :
    a.Runs around p iters
      (fun env => cycle (whileLoop s.id (test env) (Eval.extend env >>= body)) a.fuel .test) after := by
  intro σ env next hhome hat
  refine realizes_cycle (a.AtWhile env iters p n) (fun {place _ _} h => by cases place <;> exact h.2.running) ?_
    (Nat.le_refl a.fuel) ⟨hhome, hat⟩
  rintro fuel hfuel again hagain (_ | _) σ next ⟨hhome, hat⟩
  -- Both the test and the scope of a round take a step, which pays for going on.
  case test =>
    refine ((htest env hat).lower hfuel).bind fun holds τ next₁ hleads hgoes => ?_
    refine hgoes.pays fun next₂ hleads' hstands => ?_
    have hhome₂ := hhome.grows (hat.grows hstands (hleads.trans hleads'))
    cases holds with
    | true => exact hagain .round τ next₂ ⟨hhome₂, hstands⟩
    | false => exact .pure hstands
  case round =>
    refine realizes_round (q := p.skip n) hhome hat henter hbody hexit
      (within_cons hown haround (Nat.le_refl _) (Nat.le_refl _)) (Nat.le_of_lt hfuel)
      fun ending τ next₁ hgrows hends => ?_
    have hhome₁ := hhome.grows hgrows
    refine realizes_within hends hfresh haround (.refl ..) (fun hstands => ?_) fun kind hlands => ?_
    · exact (hstands.branch hback).silently fun next₂ h₂ => hagain .test τ next₂ ⟨hhome₁, h₂⟩
    · rw [htargets] at hlands
      cases kind with
      | exit | unknown _ => exact .pure (Lands.here hlands hhome₁)
      | proceed | jump => exact hagain .test τ next₁ ⟨hhome₁, Lands.here hlands hhome₁⟩
      | restart => exact hagain .round τ next₁ ⟨hhome₁, Lands.here hlands hhome₁⟩

/-! ## Loops with a three-part header -/

/-- The code from `start` to `stop` does what `x` does, and leaves the stack as it was. -/
def Does (a : Activation) (env : Nat) (x : Eval Unit) (start stop : Nat) : Prop :=
  ∀ ⦃σ stack iters next⦄, a.Stands σ env stack iters start next → Realizes a.limits a.fuel x σ next
    fun _ τ next' => a.Stands τ env stack iters stop next'

/-- The code from `start` does what `x` does, and comes to `yes` or to `no`. -/
def Decides (a : Activation) (env : Nat) (x : Eval Bool) (start yes no : Nat) : Prop :=
  ∀ ⦃σ stack iters next⦄, a.Stands σ env stack iters start next → Realizes a.limits a.fuel x σ next
    fun holds τ next' => a.Stands τ env stack iters (if holds then yes else no) next'

theorem Tests.decides {x : Eval Bool} {start yes no : Nat} (h : a.Tests env x start yes no) :
    a.Decides env x start yes no :=
  fun _ _ _ _ hat => (h hat).onward fun _ _ _ _ hgoes => hgoes.leads

structure Header (a : Activation) (σ : Stage) (env : Nat) (iters : List Iter) (header : Nat) (scopes count : Nat) :
    Prop where
  outside : a.Home σ.thread.store env iters scopes count
  inside : a.Home σ.thread.store header iters (scopes + 1) count
  opened : Opened σ.thread.store env header

theorem Header.grows {τ : Stage} {header scopes count : Nat} (h : a.Header σ env iters header scopes count)
    (hgrows : σ.thread.store.Grows τ.thread.store) : a.Header τ env iters header scopes count :=
  ⟨h.outside.grows hgrows, h.inside.grows hgrows, h.opened.grows hgrows⟩

def AtFor (a : Activation) (env : Nat) (iters : List Iter) (p : Spot) (round step : Nat) :
    ForPlace → Stage → Next → Prop
  | .start, σ, next => a.Home σ.thread.store env iters p.scopes p.iters ∧ a.Stands σ env [] iters p.ip next
  | .round header, σ, next =>
    a.Header σ env iters header p.scopes p.iters ∧ a.Stands σ header [] iters round next
  | .step header, σ, next =>
    a.Header σ env iters header p.scopes p.iters ∧ a.Stands σ header [] iters step next

theorem runs_forLoop {init step : Nat → Eval Unit} {test : Nat → Eval Bool} {body : Nat → Eval Ending}
    (check last : Nat) {close : Nat} (hscopes : q.scopes = p.scopes + 1) (hiters : q.iters = p.iters)
    (hown : o.targets.Within q.scopes q.iters)
    (htargets : o.targets = ⟨.to (close + 1) p.scopes p.iters, .to (stop + 1) q.scopes q.iters, q.target, p.target⟩)
    (hfresh : ∀ x ∈ around, x.2.id ≠ s.id) (haround : ∀ x ∈ around, x.1.targets.Within p.scopes p.iters)
    (henter : a.unit.code[p.ip]? = some (bare .enterScope))
    (hinit : ∀ env, a.Does env (init env) (p.ip + 1) check)
    (htest : ∀ env, a.Decides env (test env) check q.ip close)
    (hround : a.unit.code[q.ip]? = some (bare .enterScope))
    (hbody : a.Runs ((o, s) :: around) (q.inner 1) iters body stop)
    (hexit : a.unit.code[stop]? = some (bare .exitScope))
    (hstep : ∀ env, a.Does env (step env) (stop + 1) last)
    (hback : a.unit.code[last]? = some (bare (.branch check)))
    (hclose : a.unit.code[close]? = some (bare .exitScope)) :
    a.Runs around p iters (fun env => cycle (forLoop s.id (do
        let header ← Eval.extend env
        init header
        return header) test step fun header => Eval.extend header >>= body) a.fuel .start) (close + 1) := by
  intro σ env next hhome hat
  refine realizes_cycle (a.AtFor env iters p q.ip (stop + 1))
    (fun {place _ _} h => by cases place <;> exact h.2.running) ?_ (Nat.le_refl a.fuel) ⟨hhome, hat⟩
  intro fuel hfuel again hagain
  -- The test decides between another round and the end of the loop.
  have hcheck : ∀ {header σ next}, a.Header σ env iters header p.scopes p.iters →
      a.Stands σ header [] iters check next →
      Realizes a.limits fuel (forLoop.check test again header) σ next (a.EndsAs around env iters (close + 1)) := by
    intro header σ next hheader hat
    refine ((htest header hat).lower (Nat.le_of_lt hfuel)).bind fun holds τ next₁ hleads hstands => ?_
    have hheader₁ := hheader.grows (hat.grows hstands hleads)
    cases holds with
    | true => exact hagain (.round header) τ next₁ ⟨hheader₁, hstands⟩
    | false =>
      refine (Stands.exitScope hstands hclose hheader₁.opened.parent).silently fun next₂ h₂ => ?_
      exact .pure h₂
  rintro (_ | header | header) σ next ⟨hplace, hat⟩
  -- The start opens the scope of the header, which all rounds share.
  · refine (hat.enterScope henter).pays fun next₁ _ h₁ => ?_
    have hheader : a.Header { σ with thread := { σ.thread with store := (σ.thread.store.extend env).2 } } env iters
        (σ.thread.store.extend env).1 p.scopes p.iters :=
      ⟨hplace.grows (.extend ..), hplace.extend, opened_extend hplace.inside⟩
    have hstart := ((hinit _ h₁).lower (Nat.le_of_lt hfuel)).bind
      (f := fun _ => pure (σ.thread.store.extend env).1)
      (S := fun header τ next' => header = (σ.thread.store.extend env).1 ∧ a.Stands τ header [] iters check next')
      fun _ τ next₂ _ hstands => .pure ⟨rfl, hstands⟩
    refine hstart.bind (f := forLoop.check test again) ?_
    rintro _ τ next₂ hleads ⟨rfl, hstands⟩
    exact hcheck (hheader.grows (h₁.grows hstands hleads)) hstands
  · refine realizes_round (hscopes ▸ hiters ▸ hplace.inside) hat hround hbody hexit
      (within_cons hown haround (hscopes ▸ Nat.le_succ _) (Nat.le_of_eq hiters.symm)) (Nat.le_of_lt hfuel)
      fun ending τ next₁ hgrows hends => ?_
    have hheader := hplace.grows hgrows
    have hinside := hheader.inside.inside_scope hheader.opened
    refine realizes_within hends hfresh haround hinside (fun hstands => ?_) fun kind hlands => ?_
    · exact hagain (.step header) τ next₁ ⟨hheader, hstands⟩
    · rw [htargets] at hlands
      -- Some verbs leave the scope of the header, and some stay in it.
      have hout : ∀ {ip}, a.Lands τ header iters (.to ip p.scopes p.iters) next₁ → a.Stands τ env [] iters ip next₁ :=
        fun hlands => (hlands.outward hinside (Nat.le_refl _) (Nat.le_refl _)).here hheader.outside
      have hstay : ∀ {ip}, a.Lands τ header iters (.to ip q.scopes q.iters) next₁ →
          a.Stands τ header [] iters ip next₁ :=
        fun hlands => hlands.here (hscopes ▸ hiters ▸ hheader.inside)
      cases kind with
      | exit | unknown _ => exact .pure (hout hlands)
      | proceed => exact hagain (.step header) τ next₁ ⟨hheader, hstay hlands⟩
      | restart => exact hagain (.round header) τ next₁ ⟨hheader, hstay hlands⟩
      | jump => exact hagain .start τ next₁ ⟨hheader.outside, hout hlands⟩
  · refine ((hstep header hat).lower hfuel).bind fun _ τ next₁ hleads hstands => ?_
    refine (Stands.branch hstands hback).pays fun next₂ _ h₂ => ?_
    exact hcheck (hplace.grows (hat.grows hstands hleads)) h₂

/-! ## Loops over elements -/

/-- Where the frame stands at each place of such a loop; its iterable has `n` instructions. -/
def AtForeach (a : Activation) (env : Nat) (iters : List Iter) (p : Spot) (n : Nat) :
    ForeachPlace → Stage → Next → Prop
  | .start, σ, next => a.Home σ.thread.store env iters p.scopes p.iters ∧ a.Stands σ env [] iters p.ip next
  | .next it, σ, next =>
    a.Home σ.thread.store env iters p.scopes p.iters ∧ a.Stands σ env [] (it :: iters) (p.ip + n + 1) next
  | .round it, σ, next =>
    a.Home σ.thread.store env iters p.scopes p.iters ∧ a.Stands σ env [] (it :: iters) (p.ip + n + 1 + 1) next

theorem runs_foreachLoop {iterable : Nat → Eval Value} {body : Nat → Eval Ending} {item : String} {span : Span}
    {n : Nat} (hown : o.targets.Within p.scopes (p.iters + 1))
    (htargets : o.targets = ⟨.to (stop + 1 + 1 + 1) p.scopes p.iters,
      .to (p.ip + n + 1) p.scopes (p.iters + 1), .to (p.ip + n + 1 + 1) p.scopes (p.iters + 1), p.target⟩)
    (hfresh : ∀ x ∈ around, x.2.id ≠ s.id) (haround : ∀ x ∈ around, x.1.targets.Within p.scopes p.iters)
    (hiterable : ∀ env, a.Gives env (iterable env) p.ip (p.ip + n))
    (hinit : a.unit.code[p.ip + n]? = some (placed .iterInit span))
    (hnext : a.unit.code[p.ip + n + 1]? = some (bare (.iterNext (stop + 1 + 1))))
    (henter : a.unit.code[p.ip + n + 1 + 1]? = some (bare .enterScope))
    (hbind : a.unit.code[p.ip + n + 1 + 1 + 1]? = some (bare (.iterBind item)))
    (hbody : ∀ it,
      a.Runs ((o, s) :: around) ⟨p.ip + n + 1 + 1 + 1 + 1, p.scopes + 1, p.iters + 1⟩ (it :: iters) body stop)
    (hexit : a.unit.code[stop]? = some (bare .exitScope))
    (hback : a.unit.code[stop + 1]? = some (bare (.branch (p.ip + n + 1))))
    (hpop : a.unit.code[stop + 1 + 1]? = some (bare .iterPop)) :
    a.Runs around p iters (fun env => cycle (foreachLoop s.id (do
        let v ← iterable env
        let store ← Eval.store
        return Machine.iterOf store v) fun it => do
          let inner ← Eval.extend env
          let _ ← a.world.declare inner item it.current .zero
          body inner) a.fuel .start) (stop + 1 + 1 + 1) := by
  intro σ env next hhome hat
  refine realizes_cycle (a.AtForeach env iters p n) (fun {place _ _} h => by cases place <;> exact h.2.running) ?_
    (Nat.le_refl a.fuel) ⟨hhome, hat⟩
  rintro fuel hfuel again hagain (_ | it | it) σ next ⟨hhome, hat⟩
  -- The elements are collected once, before the first round.
  · refine Realizes.bind
      (Q := fun it τ next' => Goes a.limits next' (a.Stands τ env [] (it :: iters) (p.ip + n + 1)))
      (((hiterable env hat).lower hfuel).bind fun v τ next₁ _ hv => .store (.pure (hv.iterInit hinit))) ?_
    intro it τ next₁ hleads hgoes
    refine hgoes.pays fun next₂ hleads' h₂ => ?_
    exact hagain (.next it) τ next₂ ⟨hhome.grows (hat.grows h₂ (hleads.trans hleads')), h₂⟩
  · refine (Stands.iterNext hat hnext).pays fun next₁ _ h₁ => ?_
    rw [foreachLoop]
    split
    · rename_i v hv
      rw [hv] at h₁
      exact hagain (.round _) σ next₁ ⟨hhome, h₁⟩
    · rename_i hv
      rw [hv] at h₁
      exact (Stands.iterPop h₁ hpop).silently fun next₂ h₂ => .pure h₂
  · have hround : a.Runs ((o, s) :: around) (Spot.inner ⟨p.ip + n + 1 + 1, p.scopes, p.iters + 1⟩ 1) (it :: iters)
        (fun inner => a.world.declare inner item it.current .zero >>= fun _ => body inner) stop := by
      intro σ inner next hhome hat
      refine (Stands.iterBind hat hbind).silently fun next₁ h₁ => ?_
      refine hbody it ?_ h₁
      exact hhome.grows (.define ..)
    refine realizes_round (q := ⟨p.ip + n + 1 + 1, p.scopes, p.iters + 1⟩) (hhome.push it) hat henter hround hexit
      (within_cons hown haround (Nat.le_refl _) (Nat.le_succ _)) (Nat.le_of_lt hfuel)
      fun ending τ next₁ hgrows hends => ?_
    have hhome₁ := hhome.grows hgrows
    have hinside := hhome₁.inside_iter it
    refine realizes_within hends hfresh haround hinside (fun hstands => ?_) fun kind hlands => ?_
    · exact (hstands.branch hback).silently fun next₂ h₂ => hagain (.next it) τ next₂ ⟨hhome₁, h₂⟩
    · rw [htargets] at hlands
      have hout : ∀ {ip}, a.Lands τ env (it :: iters) (.to ip p.scopes p.iters) next₁ →
          a.Stands τ env [] iters ip next₁ :=
        fun hlands => (hlands.outward hinside (Nat.le_refl _) (Nat.le_refl _)).here hhome₁
      cases kind with
      | exit | unknown _ => exact .pure (hout hlands)
      | proceed => exact hagain (.next it) τ next₁ ⟨hhome₁, Lands.here hlands (hhome₁.push it)⟩
      | restart => exact hagain (.round it) τ next₁ ⟨hhome₁, Lands.here hlands (hhome₁.push it)⟩
      | jump => exact hagain .start τ next₁ ⟨hhome₁, hout hlands⟩

end Activation

end KestrelLang
