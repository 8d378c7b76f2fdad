import KestrelLang.Proofs.Machine.Precedence
import KestrelLang.Proofs.Meaning.Evaluator

/-! # The machine does what evaluation does

* `Ended`, `Stop.Shown` — how the end of an evaluation shows in the machine.
* `Realizes` — from a state, the machine does what an evaluation does; where the fuel of the evaluation ends,
  the machine has as many steps to go.
* `Realizes.bind`, `Goes.pays`, `realizes_cycle` — one thing after another, one step, one loop.
* `Activation`, `Activation.Stands` — the machine stands at an address of the unit with an empty channel.
* `realizes_act`, `realizes_invoke` — operations on the store, and calls. -/

namespace KestrelLang

open KestrelLang.Code

/-! ## Fuel -/

section Fuel

variable {limits : Limits} {fuel fuel' : Nat} {a b : Next}

theorem iterate_none_of_le (hle : fuel ≤ fuel') (h : iterate limits fuel' a = none) :
    iterate limits fuel a = none := by
  induction fuel generalizing a fuel' with
  | zero =>
    cases a with
    | running m => rfl
    | done m outcome =>
      rw [iterate_done] at h
      cases h
  | succ fuel ih =>
    obtain ⟨fuel', rfl⟩ : ∃ n, fuel' = n + 1 := ⟨fuel' - 1, by omega⟩
    cases a with
    | running m => exact ih (Nat.le_of_succ_le_succ hle) h
    | done m outcome => cases h

theorem Leads.iterate_none (h : Leads limits a b) (hb : KestrelLang.iterate limits fuel b = none) :
    KestrelLang.iterate limits fuel a = none := by
  induction h with
  | refl => exact hb
  | step _ ih =>
    refine iterate_none_of_le (Nat.le_succ fuel) ?_
    exact ih hb

end Fuel

theorem Eval.bind_pure {α : Type} (x : Eval α) : x >>= pure = x := by
  funext σ
  simp only [Bind.bind]
  rcases x σ with _ | ⟨_ | _, _⟩ <;> rfl

/-! ## Realization -/

/-- The run ended, with the thread, the output and the events of a stage. -/
def Ended (σ : Stage) (outcome : Outcome) (next : Next) : Prop :=
  ∃ m, next = .done m outcome ∧ m.thread = σ.thread ∧ m.out = σ.out ∧ m.events = σ.events

/-- How an early stop shows: the run ends, or the unit goes on with a marker pending. -/
def Stop.Shown : Stop → Stage → Next → Prop
  | .failed f, σ, next => Ended σ (.failure f) next
  | .aborted, σ, next => Ended σ .aborted next
  | .interrupted, _, next => ∃ m, next = .running m ∧ m.callers = [] ∧ m.thread.channel.isSome

/-- From the state `next` the machine does what `x` does from the stage `σ`, and comes to a state as `Q` says.
    If `x` has too little fuel, then the machine goes on for at least `fuel` steps. -/
def Realizes {α : Type} (limits : Limits) (fuel : Nat) (x : Eval α) (σ : Stage) (next : Next)
    (Q : α → Stage → Next → Prop) : Prop :=
  match x σ with
  | none => iterate limits fuel next = none
  | some (.ok a, σ') => ∃ next', Leads limits next next' ∧ Q a σ' next'
  | some (.error stop, σ') => ∃ next', Leads limits next next' ∧ stop.Shown σ' next'

namespace Realizes

variable {α β : Type} {limits : Limits} {fuel fuel' : Nat} {x : Eval α} {f : α → Eval β} {σ : Stage}
  {next next' : Next} {m : Machine} {Q R : α → Stage → Next → Prop} {S : β → Stage → Next → Prop}

theorem pure {a : α} (h : Q a σ next) : Realizes limits fuel (Pure.pure a) σ next Q :=
  ⟨next, .refl next, h⟩

theorem lead (hleads : Leads limits next next') (h : Realizes limits fuel x σ next' Q) :
    Realizes limits fuel x σ next Q := by
  unfold Realizes at h ⊢
  split at h
  · exact hleads.iterate_none h
  · obtain ⟨next'', hrest, hq⟩ := h
    exact ⟨next'', hleads.trans hrest, hq⟩
  · obtain ⟨next'', hrest, hstop⟩ := h
    exact ⟨next'', hleads.trans hrest, hstop⟩

theorem lower (hle : fuel ≤ fuel') (h : Realizes limits fuel' x σ next Q) :
    Realizes limits fuel x σ next Q := by
  unfold Realizes at h ⊢
  split at h
  · exact iterate_none_of_le hle h
  · exact h
  · exact h

theorem step (h : Realizes limits fuel x σ (KestrelLang.step limits m) Q) :
    Realizes limits (fuel + 1) x σ (.running m) Q := by
  unfold Realizes at h ⊢
  split at h
  · exact h
  · obtain ⟨next', hleads, hq⟩ := h
    exact ⟨next', .step hleads, hq⟩
  · obtain ⟨next', hleads, hstop⟩ := h
    exact ⟨next', .step hleads, hstop⟩

theorem bind (h : Realizes limits fuel x σ next Q)
    (hf : ∀ a σ' next', Leads limits next next' → Q a σ' next' → Realizes limits fuel (f a) σ' next' S) :
    Realizes limits fuel (x >>= f) σ next S := by
  unfold Realizes at h
  split at h
  · rename_i hx
    simp only [Realizes, Bind.bind, hx]
    exact h
  · rename_i a σ' hx
    obtain ⟨next', hleads, hq⟩ := h
    have hrest := (hf a σ' next' hleads hq).lead hleads
    simpa only [Realizes, Bind.bind, hx] using hrest
  · rename_i hx
    simp only [Realizes, Bind.bind, hx]
    exact h

theorem store {f : Store → Eval β} (h : Realizes limits fuel (f σ.thread.store) σ next S) :
    Realizes limits fuel (Eval.store >>= f) σ next S :=
  h

/-- What comes to a state as `Q` says can go on, if that is how it comes to one as `R` says. -/
theorem onward (h : Realizes limits fuel x σ next Q)
    (hgoes : ∀ a σ' next', Leads limits next next' → Q a σ' next' →
      ∃ next'', Leads limits next' next'' ∧ R a σ' next'') : Realizes limits fuel x σ next R := by
  unfold Realizes at h ⊢
  split at h
  · exact h
  · obtain ⟨next', hleads, hq⟩ := h
    obtain ⟨next'', hrest, hr⟩ := hgoes _ _ _ hleads hq
    exact ⟨next'', hleads.trans hrest, hr⟩
  · exact h

end Realizes

def Goes (limits : Limits) (next : Next) (P : Next → Prop) : Prop := ∃ m, next = .running m ∧ P (step limits m)

namespace Goes

variable {α : Type} {limits : Limits} {fuel : Nat} {next : Next} {P : Next → Prop} {x : Eval α} {σ : Stage}
  {Q : α → Stage → Next → Prop}

theorem leads (h : Goes limits next P) : ∃ next', Leads limits next next' ∧ P next' := by
  obtain ⟨m, rfl, hp⟩ := h
  exact ⟨_, .step (.refl _), hp⟩

theorem pays (h : Goes limits next P)
    (hrest : ∀ next', Leads limits next next' → P next' → Realizes limits fuel x σ next' Q) :
    Realizes limits (fuel + 1) x σ next Q := by
  obtain ⟨m, rfl, hp⟩ := h
  exact (hrest _ (.step (.refl _)) hp).step

theorem silently (h : Goes limits next P) (hrest : ∀ next', P next' → Realizes limits fuel x σ next' Q) :
    Realizes limits fuel x σ next Q :=
  (h.pays fun next' _ hp => hrest next' hp).lower (Nat.le_succ fuel)

end Goes

/-- A loop is realized if each of its places is, given that the places it goes on at are; on the way to those the
    machine takes at least one step. -/
theorem realizes_cycle {φ : Type} {limits : Limits} {bound : Nat} (At : φ → Stage → Next → Prop)
    {Q : Ending → Stage → Next → Prop} {unfold : (φ → Eval Ending) → φ → Eval Ending}
    (hrunning : ∀ {place σ next}, At place σ next → ∃ m, next = .running m)
    (hunfold : ∀ fuel < bound, ∀ again : φ → Eval Ending,
      (∀ place σ next, At place σ next → Realizes limits fuel (again place) σ next Q) →
      ∀ place σ next, At place σ next → Realizes limits (fuel + 1) (unfold again place) σ next Q)
    {fuel : Nat} (hle : fuel ≤ bound) {place : φ} {σ : Stage} {next : Next} (hat : At place σ next) :
    Realizes limits fuel (cycle unfold fuel place) σ next Q := by
  -- The fuel counts how often the loop may still go on, and the machine takes at least as many steps.
  induction fuel generalizing place σ next with
  | zero =>
    obtain ⟨m, rfl⟩ := hrunning hat
    exact rfl
  | succ fuel ih =>
    rw [cycle]
    exact hunfold fuel hle _ (fun _ _ _ hthere => ih (Nat.le_of_succ_le hle) hthere) _ _ _ hat

/-! ## Activations -/

/-- The activation of a unit in a run that the host does not wish to stop. -/
structure Activation where
  limits : Limits
  unhindered : limits.cancelAfter = none
  fuel : Nat
  unit : CodeUnit
  baseDepth : Nat
  args : List Value

namespace Activation

def world (a : Activation) : World :=
  ⟨a.limits, a.fuel, a.unit.name, ⟨a.unit.isSub, a.unit.origin⟩, a.args⟩

def machine (a : Activation) (σ : Stage) (env : Nat) (stack : List Value) (iters : List Iter) (ip steps polls : Nat) :
    Machine :=
  { thread := σ.thread
    frame := ⟨a.unit, env, a.baseDepth, a.args, stack, iters, σ.result, some ip⟩
    callers := []
    base := .program
    steps := steps
    polls := polls
    out := σ.out
    events := σ.events }

/-- The machine stands at an address of the unit, with an empty channel. -/
structure Stands (a : Activation) (σ : Stage) (env : Nat) (stack : List Value) (iters : List Iter) (ip : Nat)
    (next : Next) : Prop where
  quiet : σ.thread.channel = none
  shown : ∃ steps polls, next = .running (a.machine σ env stack iters ip steps polls)

variable {α : Type} {a : Activation} {σ σ' : Stage} {env env' : Nat} {stack stack' : List Value}
  {iters iters' : List Iter} {ip ip' fuel : Nat} {next : Next} {i : Instruction} {x : Eval α}
  {Q : α → Stage → Next → Prop}

theorem Stands.running (h : a.Stands σ env stack iters ip next) : ∃ m, next = .running m := by
  obtain ⟨steps, polls, rfl⟩ := h.shown
  exact ⟨_, rfl⟩

theorem Stands.exec (h : a.Stands σ env stack iters ip next) (hi : a.unit.code[ip]? = some i) :
    ∃ m steps polls, next = .running m ∧
      step a.limits m = (a.machine σ env stack iters ip steps polls).exec a.limits i := by
  obtain ⟨steps, polls, rfl⟩ := h.shown
  obtain ⟨steps', polls', hstep⟩ := step_eq_exec (m := a.machine σ env stack iters ip steps polls)
    a.unhindered rfl hi
  exact ⟨_, steps', polls', rfl, hstep⟩

/-- An instruction that stays in the unit takes the machine elsewhere in one step. -/
theorem Stands.goes (h : a.Stands σ env stack iters ip next) (hi : a.unit.code[ip]? = some i)
    (hquiet : σ'.thread.channel = none)
    (hexec : ∀ steps polls, (a.machine σ env stack iters ip steps polls).exec a.limits i =
      .running (a.machine σ' env' stack' iters' ip' steps polls)) :
    Goes a.limits next (a.Stands σ' env' stack' iters' ip') := by
  obtain ⟨m, steps, polls, rfl, hstep⟩ := h.exec hi
  refine ⟨m, rfl, hquiet, steps, polls, ?_⟩
  rw [hstep, hexec]

theorem Stands.grows {next' : Next} (h : a.Stands σ env stack iters ip next)
    (h' : a.Stands σ' env' stack' iters' ip' next') (hleads : Leads a.limits next next') :
    σ.thread.store.Grows σ'.thread.store := by
  obtain ⟨_, _, rfl⟩ := h.shown
  obtain ⟨_, _, rfl⟩ := h'.shown
  exact hleads.precedes.grows

/-! ## Instructions -/

section Instructions

variable {v w : Value}

theorem Stands.const {value : Literal} (h : a.Stands σ env stack iters ip next)
    (hi : a.unit.code[ip]? = some (bare (.const value))) :
    Goes a.limits next (a.Stands σ env (value.toValue :: stack) iters (ip + 1)) :=
  h.goes hi h.quiet fun _ _ => rfl

theorem Stands.dup (h : a.Stands σ env (v :: stack) iters ip next) (hi : a.unit.code[ip]? = some (bare .dup)) :
    Goes a.limits next (a.Stands σ env (v :: v :: stack) iters (ip + 1)) :=
  h.goes hi h.quiet fun _ _ => rfl

theorem Stands.dup2 (h : a.Stands σ env (w :: v :: stack) iters ip next) (hi : a.unit.code[ip]? = some (bare .dup2)) :
    Goes a.limits next (a.Stands σ env (w :: v :: w :: v :: stack) iters (ip + 1)) :=
  h.goes hi h.quiet fun _ _ => rfl

theorem Stands.pop (h : a.Stands σ env (v :: stack) iters ip next) (hi : a.unit.code[ip]? = some (bare .pop)) :
    Goes a.limits next (a.Stands σ env stack iters (ip + 1)) :=
  h.goes hi h.quiet fun _ _ => rfl

theorem Stands.popResult (h : a.Stands σ env (v :: stack) iters ip next)
    (hi : a.unit.code[ip]? = some (bare .popResult)) :
    Goes a.limits next (a.Stands { σ with result := v } env stack iters (ip + 1)) :=
  h.goes hi h.quiet fun _ _ => rfl

theorem Stands.result (h : a.Stands σ env stack iters ip next) (hi : a.unit.code[ip]? = some (bare .result)) :
    Goes a.limits next (a.Stands σ env (σ.result :: stack) iters (ip + 1)) :=
  h.goes hi h.quiet fun _ _ => rfl

theorem Stands.branch (h : a.Stands σ env stack iters ip next) (hi : a.unit.code[ip]? = some (bare (.branch ip'))) :
    Goes a.limits next (a.Stands σ env stack iters ip') :=
  h.goes hi h.quiet fun _ _ => rfl

theorem Stands.branchIfFalse (h : a.Stands σ env (v :: stack) iters ip next)
    (hi : a.unit.code[ip]? = some (bare (.branchIfFalse ip'))) :
    Goes a.limits next (a.Stands σ env stack iters (if v.truthy σ.thread.store then ip + 1 else ip')) := by
  refine h.goes hi h.quiet fun _ _ => ?_
  cases hv : v.truthy σ.thread.store <;> simp only [Machine.exec, bare, machine, hv] <;> rfl

theorem Stands.branchIfTrue (h : a.Stands σ env (v :: stack) iters ip next)
    (hi : a.unit.code[ip]? = some (bare (.branchIfTrue ip'))) :
    Goes a.limits next (a.Stands σ env stack iters (if v.truthy σ.thread.store then ip' else ip + 1)) := by
  refine h.goes hi h.quiet fun _ _ => ?_
  cases hv : v.truthy σ.thread.store <;> simp only [Machine.exec, bare, machine, hv] <;> rfl

theorem Stands.dispatch {table : DispatchTable} {span : Span} (h : a.Stands σ env stack iters ip next)
    (hi : a.unit.code[ip]? = some (placed (.dispatch table) span)) :
    Goes a.limits next (a.Stands σ env stack iters (ip + 1)) := by
  refine h.goes hi h.quiet fun _ _ => ?_
  simp only [Machine.exec, placed, Machine.dispatch, machine, h.quiet, Option.isNone_none, if_true]
  rfl

end Instructions

/-! ## Operations and calls -/

theorem ended_raiseHere (σ : Stage) (env : Nat) (stack : List Value) (iters : List Iter) (ip steps polls : Nat)
    (span : Span) (t : Trouble) :
    (a.world.stopOf span t).Shown σ ((a.machine σ env stack iters ip steps polls).raiseHere span t) := by
  cases t <;> exact ⟨_, rfl, rfl, rfl, rfl⟩

/-- An instruction that does an operation on the store and leaves its value on the stack. -/
theorem realizes_act {span : Span} {f : Store → Except Trouble Value × Store}
    (h : a.Stands σ env stack iters ip next) (hi : a.unit.code[ip]? = some i)
    (hexec : ∀ m : Machine, m.frame.stack = stack → m.frame.env = env → m.exec a.limits i =
      match f m.thread.store with
      | (.ok v, s) => { m with thread := { m.thread with store := s } }.advance (v :: stack')
      | (.error t, s) => { m with thread := { m.thread with store := s } }.raiseHere span t) :
    Realizes a.limits fuel (a.world.act span f) σ next
      fun v τ next' => a.Stands τ env (v :: stack') iters (ip + 1) next' := by
  obtain ⟨m, steps, polls, rfl, hstep⟩ := h.exec hi
  rw [hexec _ rfl rfl] at hstep
  unfold Realizes World.act
  cases hf : f σ.thread.store with
  | mk result s =>
    have hfound : f (a.machine σ env stack iters ip steps polls).thread.store = (result, s) := hf
    rw [hfound] at hstep
    cases result with
    | ok v => exact ⟨_, .step (.refl _), h.quiet, steps, polls, hstep⟩
    | error t =>
      refine ⟨_, .step (.refl _), ?_⟩
      rw [hstep]
      exact ended_raiseHere _ env stack iters ip steps polls span t

/-- A call of the unit runs above its frame as evaluation lets it run alone. -/
theorem realizes_invoke {callee : Value} {values : List Value} {name : String} {landing : JumpTarget} {span : Span}
    (h : a.Stands σ env (values.reverse ++ callee :: stack) iters ip next)
    (hi : a.unit.code[ip]? = some (placed (.call name values.length landing) span)) :
    Realizes a.limits a.fuel (a.world.invoke callee values span) σ next
      fun v τ next' => a.Stands τ env (v :: stack) iters (ip + 1) next' := by
  obtain ⟨m, steps, polls, rfl, hstep⟩ := h.exec hi
  -- The call runs above the frame that waits for it.
  let here := a.machine σ env (values.reverse ++ callee :: stack) iters ip steps polls
  let waiting : Suspended := ⟨{ here.frame with stack := stack }, landing, span⟩
  have hcall : step a.limits m = here.call a.limits ([] ++ [waiting]) callee values := by
    rw [hstep]
    simp only [Machine.exec, placed, machine, popMany?_reverse_append]
    rfl
  have hagrees : σ.alone.Agrees False .program here :=
    ⟨rfl, rfl, rfl, rfl, .inr ⟨rfl, rfl⟩, rfl, rfl, rfl, rfl⟩
  have habove : (σ.alone.call a.limits [] callee values).Above False .program [waiting] (step a.limits m) := by
    rw [hcall]
    exact hagrees.call [] False.elim callee values
  have hbeneath : [waiting] ≠ [] ∨ Base.program = .call := .inl (List.cons_ne_nil _ _)
  unfold Realizes World.invoke world
  cases hrun : iterate a.limits a.fuel (σ.alone.call a.limits [] callee values) with
  | none =>
    dsimp only
    exact (Leads.step (.refl _)).iterate_none (iterate_above_none a.unhindered False.elim hbeneath habove hrun)
  | some e =>
    obtain ⟨m', outcome⟩ := e
    obtain ⟨next', hend, hleads⟩ := iterate_above a.unhindered False.elim hbeneath habove hrun
    dsimp only
    cases hend with
    | @answered _ n v hn =>
      have hthread := hn.thread_eq not_false
      -- A pending marker takes the frame to its landing, where evaluation does not follow it.
      by_cases hpending : m'.thread.channel.isSome
      · simp only [hpending, if_true]
        exact ⟨_, .step hleads, _, rfl, rfl, hthread ▸ hpending⟩
      · have hquiet : m'.thread.channel = none := by simpa using hpending
        simp only [hpending]
        refine ⟨_, .step hleads, hquiet, n.steps, n.polls, ?_⟩
        simp only [Machine.answer, Suspended.resume, machine, hthread, hpending, hn.base, hn.out, hn.events]
        rfl
    | failed hn => exact ⟨_, .step hleads, _, rfl, hn.thread_eq not_false, hn.out, hn.events⟩
    | aborted hn => exact ⟨_, .step hleads, _, rfl, hn.thread_eq not_false, hn.out, hn.events⟩

end Activation

end KestrelLang
