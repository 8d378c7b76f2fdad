import KestrelLang.Proofs.Machine.Rest
import KestrelLang.Proofs.Value.Indifference

/-! # Machines that are alike

* `Frame.Alike`, `Thread.Alike`, `Machine.Alike` — machines that differ in nothing but the numbers of
  their environments and arrays, what their stores hold beyond the pairing, and the peak of the depth.
* `Next.Alike` — both go on alike, or both end alike.
* `Alike.operand`, `Alike.operands₂`, `Alike.operands₃`, `Alike.operandList`, `Alike.calleeAndArgs`, `Alike.walk` — what
  an instruction takes from alike stacks is alike, or both stacks are too low for it.
* `alike_exec`, `alike_step` — one step from alike machines, under a pairing that may have grown. -/

namespace KestrelLang

open KestrelLang.Code

/-! ## Frames -/

/-- Alike walks: over alike elements, at the same place. -/
structure Iter.Alike (r : Pairing) (x y : Iter) : Prop where
  elements : ValuesAlike r x.elements.toList y.elements.toList
  next : x.next = y.next
  current : x.current.Alike r y.current

/-- The frames run the same unit at the same address, with alike values in corresponding
    environments. -/
structure Frame.Alike (r : Pairing) (f g : Frame) : Prop where
  unit : f.unit = g.unit
  env : r.envs f.env g.env
  baseDepth : f.baseDepth = g.baseDepth
  args : ValuesAlike r f.args g.args
  stack : ValuesAlike r f.stack g.stack
  iters : List.Forall₂ (Iter.Alike r) f.iters g.iters
  result : f.result.Alike r g.result
  ip : f.ip = g.ip

structure Suspended.Alike (r : Pairing) (x y : Suspended) : Prop where
  frame : x.frame.Alike r y.frame
  landing : x.landing = y.landing
  site : x.site = y.site

section Frames

variable {r r' : Pairing} {f g : Frame} {s₁ s₂ : Store}

theorem Iter.Alike.grow {x y : Iter} (h : x.Alike r y) (hr : r.Grows r') : x.Alike r' y :=
  ⟨h.elements.grow hr, h.next, h.current.grow hr⟩

theorem Frame.Alike.grow (h : f.Alike r g) (hr : r.Grows r') : f.Alike r' g where
  unit := h.unit
  env := hr.envs h.env
  baseDepth := h.baseDepth
  args := h.args.grow hr
  stack := h.stack.grow hr
  iters := h.iters.imp fun _ _ hxy => hxy.grow hr
  result := h.result.grow hr
  ip := h.ip

theorem Suspended.Alike.grow {x y : Suspended} (h : x.Alike r y) (hr : r.Grows r') : x.Alike r' y :=
  ⟨h.frame.grow hr, h.landing, h.site⟩

theorem alike_cutIters {xs ys : List Iter} (h : List.Forall₂ (Iter.Alike r) xs ys) (n : Nat) :
    List.Forall₂ (Iter.Alike r) (cutIters n xs) (cutIters n ys) := by
  unfold cutIters
  rw [h.length_eq]
  exact List.forall₂_drop _ h

theorem Frame.Alike.jump (h : f.Alike r g) (hs : s₁.Alike r s₂) (target : JumpTarget) :
    (f.jump s₁ target).Alike r (g.jump s₂ target) := by
  cases target with
  | exit =>
    refine ⟨h.unit, ?_, h.baseDepth, h.args, .nil, .nil, h.result, rfl⟩
    simp only [Frame.jump, h.baseDepth]
    exact alike_unwind hs h.env _
  | «to» ip scopes iters =>
    refine ⟨h.unit, ?_, h.baseDepth, h.args, .nil, alike_cutIters h.iters iters, h.result, rfl⟩
    simp only [Frame.jump, h.baseDepth]
    exact alike_unwind hs h.env _

theorem ValuesAlike.shape {vs ws : List Value} (h : ValuesAlike r vs ws) :
    vs = [] ∧ ws = [] ∨ ∃ v vs' w ws', vs = v :: vs' ∧ ws = w :: ws' ∧ v.Alike r w ∧
      ValuesAlike r vs' ws' := by
  cases h with
  | nil => exact .inl ⟨rfl, rfl⟩
  | cons hv hrest => exact .inr ⟨_, _, _, _, rfl, rfl, hv, hrest⟩

theorem iters_shape {xs ys : List Iter} (h : List.Forall₂ (Iter.Alike r) xs ys) :
    xs = [] ∧ ys = [] ∨ ∃ x xs' y ys', xs = x :: xs' ∧ ys = y :: ys' ∧ x.Alike r y ∧
      List.Forall₂ (Iter.Alike r) xs' ys' := by
  cases h with
  | nil => exact .inl ⟨rfl, rfl⟩
  | cons hx hrest => exact .inr ⟨_, _, _, _, rfl, rfl, hx, hrest⟩

theorem alike_popMany? {vs ws : List Value} (h : ValuesAlike r vs ws) (n : Nat) :
    Machine.popMany? n vs = none ∧ Machine.popMany? n ws = none ∨
      ∃ xs vs' ys ws', Machine.popMany? n vs = some (xs, vs') ∧
        Machine.popMany? n ws = some (ys, ws') ∧ ValuesAlike r xs ys ∧ ValuesAlike r vs' ws' := by
  unfold Machine.popMany?
  rw [h.length_eq]
  split
  · exact .inr ⟨_, _, _, _, rfl, rfl, List.rel_reverse (List.forall₂_take n h), List.forall₂_drop n h⟩
  · exact .inl ⟨rfl, rfl⟩

theorem alike_iterOf {v w : Value} (hs : s₁.Alike r s₂) (h : v.Alike r w) :
    (Machine.iterOf s₁ v).Alike r (Machine.iterOf s₂ w) := by
  have hsingle : ∀ {v w : Value}, v.Alike r w → Iter.Alike r ⟨#[v], 0, .absent⟩ ⟨#[w], 0, .absent⟩ :=
    fun hvw => ⟨.cons hvw .nil, rfl, .plain trivial⟩
  cases h with
  | @plain v hv =>
    cases v with
    | array ref => exact hv.elim
    | absent | undefined => exact ⟨.nil, rfl, .plain trivial⟩
    | _ => exact hsingle (.plain hv)
  | array hab => exact ⟨hs.elements hab, rfl, .plain trivial⟩
  | sub hij => exact hsingle (.sub hij)
  | tailCalled hsent => exact hsingle (.tailCalled hsent)

end Frames

/-! ## Machines -/

/-- The threads are the same up to the pairing, which pairs their globals; no tail call is parked on
    either, and how deep they ever were is of no account. -/
structure Thread.Alike (r : Pairing) (t u : Thread) : Prop where
  id : t.id = u.id
  store : t.store.Alike r u.store
  roots : r.envs globals globals
  channel : t.channel = u.channel
  slots : t.trampoline = none ∧ u.trampoline = none
  depth : t.depth = u.depth

/-- The machines are the same but for their frames: the threads are alike, and so is everything that a
    host sees. -/
structure Machine.AlikeOutside (r : Pairing) (m n : Machine) : Prop where
  thread : m.thread.Alike r n.thread
  base : m.base = n.base
  steps : m.steps = n.steps
  polls : m.polls = n.polls
  out : m.out = n.out
  events : m.events = n.events

/-- The machines are the same up to the pairing. -/
structure Machine.Alike (r : Pairing) (m n : Machine) : Prop extends m.AlikeOutside r n where
  frame : m.frame.Alike r n.frame
  callers : List.Forall₂ (Suspended.Alike r) m.callers n.callers

inductive Outcome.Alike (r : Pairing) : Outcome → Outcome → Prop
  | value {v w : Value} : v.Alike r w → Outcome.Alike r (.value v) (.value w)
  | failure (f : Failure) : Outcome.Alike r (.failure f) (.failure f)
  | aborted : Outcome.Alike r .aborted .aborted

/-- Both runs go on alike, or both are over and ended alike. -/
inductive Next.Alike (r : Pairing) : Next → Next → Prop
  | running {m n : Machine} : m.Alike r n → Next.Alike r (.running m) (.running n)
  | done {m n : Machine} {o o' : Outcome} : m.AlikeOutside r n → o.Alike r o' →
      Next.Alike r (.done m o) (.done n o')

/-- As `Next.Alike`, under a pairing that may have grown out of `r`. -/
def Next.AlikeFrom (r : Pairing) (a b : Next) : Prop := ∃ r', r.Grows r' ∧ a.Alike r' b

theorem Next.Alike.now {r : Pairing} {a b : Next} (h : a.Alike r b) : a.AlikeFrom r b := ⟨r, .refl r, h⟩

theorem Next.AlikeFrom.after {r r' : Pairing} {a b : Next} (h : a.AlikeFrom r' b) (hr : r.Grows r') :
    a.AlikeFrom r b := by
  obtain ⟨r'', hgrows, hab⟩ := h
  exact ⟨r'', hr.trans hgrows, hab⟩

theorem Thread.Alike.withStore {r r' : Pairing} {t u : Thread} (h : t.Alike r u) (hr : r.Grows r')
    {s₁ s₂ : Store} (hs : s₁.Alike r' s₂) :
    Thread.Alike r' { t with store := s₁ } { u with store := s₂ } :=
  ⟨h.id, hs, hr.envs h.roots, h.channel, h.slots, h.depth⟩

namespace Machine

variable {r r' : Pairing} {m n : Machine} {limits : Limits} {cs ds : List Suspended}

theorem Alike.withStore (h : m.Alike r n) (hr : r.Grows r') {s₁ s₂ : Store} (hs : s₁.Alike r' s₂) :
    Alike r' { m with thread := { m.thread with store := s₁ } }
      { n with thread := { n.thread with store := s₂ } } :=
  ⟨⟨h.thread.withStore hr hs, h.base, h.steps, h.polls, h.out, h.events⟩, h.frame.grow hr,
    h.callers.imp fun _ _ hx => hx.grow hr⟩

theorem Alike.withFrame (h : m.Alike r n) {f g : Frame} (hfg : f.Alike r g) :
    Alike r { m with frame := f } { n with frame := g } :=
  ⟨⟨h.thread, h.base, h.steps, h.polls, h.out, h.events⟩, hfg, h.callers⟩

theorem Alike.advance (h : m.Alike r n) {vs ws : List Value} (hstack : ValuesAlike r vs ws) :
    (m.advance vs).Alike r (n.advance ws) := by
  refine .running (h.withFrame ?_)
  have hf := h.frame
  exact ⟨hf.unit, hf.env, hf.baseDepth, hf.args, hstack, hf.iters, hf.result, by rw [hf.ip]⟩

theorem Alike.branchTo (h : m.Alike r n) {vs ws : List Value} (hstack : ValuesAlike r vs ws)
    (ip : Nat) : (m.branchTo vs ip).Alike r (n.branchTo ws ip) := by
  refine .running (h.withFrame ?_)
  have hf := h.frame
  exact ⟨hf.unit, hf.env, hf.baseDepth, hf.args, hstack, hf.iters, hf.result, rfl⟩

theorem Alike.underflow (h : m.Alike r n) : m.underflow.Alike r n.underflow :=
  .done h.toAlikeOutside .aborted

/-! ## Failures -/

theorem leaveCall_alike (h : List.Forall₂ (Suspended.Alike r) cs ds) (failure : Failure) :
    cs.foldl leaveCall failure = ds.foldl leaveCall failure := by
  induction h generalizing failure with
  | nil => rfl
  | cons hx _ ih =>
    rw [List.foldl_cons, List.foldl_cons, ih]
    unfold leaveCall
    rw [hx.frame.unit, hx.site]

theorem alike_raise (h : m.AlikeOutside r n) (hcallers : List.Forall₂ (Suspended.Alike r) cs ds)
    (failure : Failure) : (m.raise cs failure).Alike r (n.raise ds failure) := by
  unfold raise
  rw [leaveCall_alike hcallers]
  exact .done h (.failure _)

theorem alike_raiseTrouble (h : m.AlikeOutside r n)
    (hcallers : List.Forall₂ (Suspended.Alike r) cs ds) (t : Trouble) :
    (m.raiseTrouble cs t).Alike r (n.raiseTrouble ds t) := by
  cases t with
  | fault cause => exact alike_raise h hcallers _
  | failed message => exact alike_raise h hcallers _
  | abort => exact .done h .aborted

theorem alike_raiseHere (h : m.AlikeOutside r n) (hunit : m.frame.unit = n.frame.unit)
    (hcallers : List.Forall₂ (Suspended.Alike r) m.callers n.callers) (span : Span) (t : Trouble) :
    (m.raiseHere span t).Alike r (n.raiseHere span t) := by
  cases t with
  | fault cause =>
    simp only [raiseHere, hunit]
    exact alike_raise h hcallers _
  | failed message => exact alike_raise h hcallers _
  | abort => exact .done h .aborted

theorem Alike.raiseHere (h : m.Alike r n) (span : Span) (t : Trouble) :
    (m.raiseHere span t).Alike r (n.raiseHere span t) :=
  alike_raiseHere h.toAlikeOutside h.frame.unit h.callers span t

/-! ## Calls -/

theorem alike_deliver (h : m.AlikeOutside r n) (hcallers : List.Forall₂ (Suspended.Alike r) cs ds)
    {v w : Value} (hv : v.Alike r w) : (m.deliver cs v).Alike r (n.deliver ds w) := by
  have hthread : Thread.Alike r { m.thread with depth := m.thread.depth - 1 }
      { n.thread with depth := n.thread.depth - 1 } :=
    ⟨h.thread.id, h.thread.store, h.thread.roots, h.thread.channel, h.thread.slots,
      congrArg (· - 1) h.thread.depth⟩
  cases hcallers with
  | nil => exact .done ⟨hthread, h.base, h.steps, h.polls, h.out, h.events⟩ (.value hv)
  | @cons x y xs ys hx hrest =>
    refine .running ⟨⟨hthread, h.base, h.steps, h.polls, h.out, h.events⟩, ?_, hrest⟩
    have hf := hx.frame
    dsimp only
    rw [h.thread.channel]
    split
    · rw [hx.landing]
      exact hf.jump h.thread.store _
    · exact ⟨hf.unit, hf.env, hf.baseDepth, hf.args, .cons hv hf.stack, hf.iters, hf.result,
        by rw [hf.ip]⟩

theorem alike_bindParams {s₁ s₂ : Store} (hs : s₁.Alike r s₂) {i j : Nat} (hij : r.envs i j)
    {vs ws : List Value} (h : ValuesAlike r vs ws) (params : List String) :
    (bindParams s₁ i params vs).Alike r (bindParams s₂ j params ws) := by
  induction params generalizing s₁ s₂ vs ws with
  | nil =>
    rw [bindParams, bindParams]
    exact hs
  | cons p ps ih =>
    cases h with
    | nil =>
      rw [bindParams, bindParams]
      exact ih (hs.define hij (.plain (v := .undefined) trivial) p) .nil
    | cons hv hrest =>
      rw [bindParams, bindParams]
      exact ih (hs.define hij hv p) hrest

/-- Alike callees start alike: a sub in new environments that correspond to each other. -/
theorem alike_enter (h : m.AlikeOutside r n) (hcallers : List.Forall₂ (Suspended.Alike r) cs ds)
    {callee callee' : Value} (hcallee : callee.Alike r callee') {vs ws : List Value}
    (hargs : ValuesAlike r vs ws) :
    (m.enter limits cs callee vs).AlikeFrom r (n.enter limits ds callee' ws) := by
  have hlength := hargs.length_eq
  cases hcallee with
  | @sub f j hij =>
    simp only [enter]
    split
    · exact (alike_raiseTrouble h hcallers _).now
    · rename_i unit _
      -- The two new environments correspond to each other from here on.
      have hgrows := r.grows_addEnv m.thread.store.envs.size n.thread.store.envs.size
      have hextend := h.thread.store.extend hij
      have hnew : (r.addEnv m.thread.store.envs.size n.thread.store.envs.size).envs
          (m.thread.store.extend f.closure).1 (n.thread.store.extend j).1 := .inr ⟨rfl, rfl⟩
      have hbind := alike_bindParams hextend hnew (hargs.grow hgrows) unit.params
      refine ⟨_, hgrows, .running
        ⟨⟨h.thread.withStore hgrows hbind, h.base, h.steps, h.polls, h.out, h.events⟩, ?_,
          hcallers.imp fun _ _ hx => hx.grow hgrows⟩⟩
      exact ⟨rfl, hnew, hbind.depth hnew, hargs.grow hgrows, .nil, .nil, .plain trivial, rfl⟩
  | array _ =>
    simp only [enter, Value.kindText, Value.kind?]
    exact (alike_raiseTrouble h hcallers _).now
  | tailCalled _ =>
    simp only [enter]
    exact (alike_raiseTrouble h hcallers _).now
  | plain hv =>
    cases callee with
    | sub f => exact hv.elim
    | native name arity impl =>
      simp only [enter, hlength]
      split
      · exact (alike_raiseTrouble h hcallers _).now
      · split
        · exact (Next.Alike.done h .aborted).now
        · rename_i b
          have happly := alike_apply h.thread.store hargs b limits.outLimit m.out
          rw [h.out] at happly
          have hafter : AlikeOutside r
              { m with
                thread := { m.thread with store := (b.apply limits.outLimit m.thread.store n.out vs).store }
                out := (b.apply limits.outLimit m.thread.store n.out vs).out }
              { n with
                thread := { n.thread with store := (b.apply limits.outLimit n.thread.store n.out ws).store }
                out := (b.apply limits.outLimit n.thread.store n.out ws).out } :=
            ⟨h.thread.withStore (.refl r) happly.store, h.base, h.steps, h.polls, happly.out, h.events⟩
          have hresult := happly.result
          rw [h.out]
          -- From here on only the two effects matter, not what they were computed from.
          generalize b.apply limits.outLimit m.thread.store n.out vs = e₁ at hresult hafter ⊢
          generalize b.apply limits.outLimit n.thread.store n.out ws = e₂ at hresult hafter ⊢
          obtain ⟨result₁, store₁, out₁⟩ := e₁
          obtain ⟨result₂, store₂, out₂⟩ := e₂
          cases hresult with
          | ok hvw => exact (alike_deliver hafter hcallers hvw).now
          | error t => exact (alike_raiseTrouble hafter hcallers t).now
    | _ =>
      simp only [enter]
      exact (alike_raiseTrouble h hcallers _).now

theorem alike_call (h : m.AlikeOutside r n) (hcallers : List.Forall₂ (Suspended.Alike r) cs ds)
    {callee callee' : Value} (hcallee : callee.Alike r callee') {vs ws : List Value}
    (hargs : ValuesAlike r vs ws) :
    (m.call limits cs callee vs).AlikeFrom r (n.call limits ds callee' ws) := by
  have hcounted : ∀ p q, AlikeOutside r
      { m with thread := { m.thread with depth := m.thread.depth + 1, peak := p } }
      { n with thread := { n.thread with depth := n.thread.depth + 1, peak := q } } :=
    fun p q => ⟨⟨h.thread.id, h.thread.store, h.thread.roots, h.thread.channel, h.thread.slots,
      congrArg (· + 1) h.thread.depth⟩, h.base, h.steps, h.polls, h.out, h.events⟩
  simp only [call]
  split
  · rename_i limit _
    have hdepth : limit < m.thread.depth + 1 ↔ limit < n.thread.depth + 1 := by rw [h.thread.depth]
    by_cases hdeep : limit < m.thread.depth + 1
    · rw [if_pos hdeep, if_pos (hdepth.mp hdeep)]
      exact (alike_raiseTrouble (hcounted _ _) hcallers _).now
    · rw [if_neg hdeep, if_neg (mt hdepth.mpr hdeep)]
      exact alike_enter (hcounted _ _) hcallers hcallee hargs
  · exact alike_enter (hcounted _ _) hcallers hcallee hargs

theorem isEmpty_alike (h : List.Forall₂ (Suspended.Alike r) cs ds) : cs.isEmpty = ds.isEmpty := by
  cases h <;> rfl

theorem alike_leave (h : m.Alike r n) {v w : Value} (hv : v.Alike r w) :
    (m.leave limits v).Alike r (n.leave limits w) := by
  unfold leave
  rw [isEmpty_alike h.callers, h.base, hv.isTailCalled]
  split
  · exact .done h.toAlikeOutside (.value hv)
  · split
    · rw [h.thread.slots.1, h.thread.slots.2]
      exact alike_raise h.toAlikeOutside h.callers _
    · exact alike_deliver h.toAlikeOutside h.callers hv

/-- The sentinel of a parked tail call is gone before the step is over. -/
theorem alike_tailCall (h : m.Alike r n) (hend : ¬ (m.callers.isEmpty ∧ m.base = .program))
    {callee callee' : Value} (hcallee : callee.Alike r callee') {vs ws : List Value}
    (hargs : ValuesAlike r vs ws) :
    (m.tailCall limits callee vs).AlikeFrom r (n.tailCall limits callee' ws) := by
  have hend' : ¬ (n.callers.isEmpty ∧ n.base = .program) := by
    rw [← isEmpty_alike h.callers, ← h.base]
    exact hend
  rw [tailCall_eq_enter h.thread.slots.1 hend, tailCall_eq_enter h.thread.slots.2 hend']
  exact alike_enter h.toAlikeOutside h.callers hcallee hargs

theorem alike_signal (h : m.Alike r n) (marker : Marker) :
    (m.signal limits marker).Alike r (n.signal limits marker) := by
  unfold signal
  rw [h.thread.channel]
  split
  · exact alike_raise h.toAlikeOutside h.callers _
  · rename_i channel _
    have hthread : Thread.Alike r { m.thread with channel := channel }
        { n.thread with channel := channel } :=
      ⟨h.thread.id, h.thread.store, h.thread.roots, rfl, h.thread.slots, h.thread.depth⟩
    refine alike_leave ?_ (.plain (v := .undefined) trivial)
    refine ⟨⟨hthread, h.base, h.steps, h.polls, h.out, ?_⟩, h.frame, h.callers⟩
    simp only [note, h.thread.id, h.frame.unit, h.events]

theorem alike_dispatch (h : m.Alike r n) (table : DispatchTable) :
    (m.dispatch table).Alike r (n.dispatch table) := by
  unfold dispatch
  rw [h.thread.channel]
  split
  · exact h.advance h.frame.stack
  · split
    · exact .done h.toAlikeOutside .aborted
    · rename_i channel _
      split
      · exact .done h.toAlikeOutside .aborted
      · rename_i target _
        have hthread : Thread.Alike r { m.thread with channel := channel }
            { n.thread with channel := channel } :=
          ⟨h.thread.id, h.thread.store, h.thread.roots, rfl, h.thread.slots, h.thread.depth⟩
        have hjump := h.frame.jump h.thread.store target
        dsimp only
        split
        · exact .running ⟨⟨hthread, h.base, h.steps, h.polls, h.out, h.events⟩, hjump, h.callers⟩
        · refine .running ⟨⟨hthread, h.base, h.steps, h.polls, h.out, ?_⟩, hjump, h.callers⟩
          simp only [note, h.thread.id, h.frame.unit, h.events]

/-! ## Instructions -/

theorem Alike.withEnv (h : m.Alike r n) {i j : Nat} (hij : r.envs i j) :
    Alike r { m with frame := { m.frame with env := i } } { n with frame := { n.frame with env := j } } :=
  h.withFrame ⟨h.frame.unit, hij, h.frame.baseDepth, h.frame.args, h.frame.stack, h.frame.iters,
    h.frame.result, h.frame.ip⟩

theorem Alike.withIters (h : m.Alike r n) {xs ys : List Iter}
    (hiters : List.Forall₂ (Iter.Alike r) xs ys) :
    Alike r { m with frame := { m.frame with iters := xs } }
      { n with frame := { n.frame with iters := ys } } :=
  h.withFrame ⟨h.frame.unit, h.frame.env, h.frame.baseDepth, h.frame.args, h.frame.stack, hiters,
    h.frame.result, h.frame.ip⟩

theorem Alike.withResult (h : m.Alike r n) {v w : Value} (hv : v.Alike r w) :
    Alike r { m with frame := { m.frame with result := v } }
      { n with frame := { n.frame with result := w } } :=
  h.withFrame ⟨h.frame.unit, h.frame.env, h.frame.baseDepth, h.frame.args, h.frame.stack, h.frame.iters,
    hv, h.frame.ip⟩

theorem Alike.define_advance (h : m.Alike r n) {i j : Nat} (hij : r.envs i j) {v w : Value}
    (hv : v.Alike r w) (name : String) :
    ({ m with thread := { m.thread with store := m.thread.store.define i name v } }.advance
      m.frame.stack).Alike r
      ({ n with thread := { n.thread with store := n.thread.store.define j name w } }.advance
        n.frame.stack) :=
  (h.withStore (.refl r) (h.thread.store.define hij hv name)).advance h.frame.stack

theorem Alike.owner (h : m.Alike r n) (name : String) :
    r.envs ((m.thread.store.owner? name m.frame.env).getD globals)
      ((n.thread.store.owner? name n.frame.env).getD globals) := by
  obtain ⟨hi, hj⟩ | ⟨i, j, hi, hj, hij⟩ :=
    option_rel_iff.mp (alike_owner? h.thread.store h.frame.env name)
  · rw [hi, hj]
    exact h.thread.roots
  · rw [hi, hj]
    exact hij

theorem Alike.parent (h : m.Alike r n) :
    m.thread.store.parent m.frame.env = none ∧ n.thread.store.parent n.frame.env = none ∨
      ∃ i j, m.thread.store.parent m.frame.env = some i ∧ n.thread.store.parent n.frame.env = some j ∧
        r.envs i j := by
  obtain hnone | ⟨i, j, hi, hj, hij, -⟩ := option_rel_iff.mp (h.thread.store.parent h.frame.env)
  · exact .inl hnone
  · exact .inr ⟨i, j, hi, hj, hij⟩

/-! ### Operands

Alike stacks are both too low for an instruction, or they have alike operands on top; the same goes for the walks. So an
instruction only has to go on alike with alike operands. -/

section Operands

variable (h : m.Alike r n)
include h

theorem Alike.operand {k k' : Value → List Value → Next}
    (hk : ∀ v vs w ws, v.Alike r w → ValuesAlike r vs ws → (k v vs).AlikeFrom r (k' w ws)) :
    Next.AlikeFrom r
      (match m.frame.stack with
      | v :: rest => k v rest
      | [] => m.underflow)
      (match n.frame.stack with
      | w :: rest => k' w rest
      | [] => n.underflow) := by
  obtain ⟨hv, hw⟩ | ⟨v, vs, w, ws, hv, hw, hvw, hrest⟩ := h.frame.stack.shape
  · simp only [hv, hw]
    exact h.underflow.now
  · simp only [hv, hw]
    exact hk v vs w ws hvw hrest

theorem Alike.operands₂ {k k' : Value → Value → List Value → Next}
    (hk : ∀ v v₁ vs w w₁ ws, v.Alike r w → v₁.Alike r w₁ → ValuesAlike r vs ws →
      (k v v₁ vs).AlikeFrom r (k' w w₁ ws)) :
    Next.AlikeFrom r
      (match m.frame.stack with
      | v :: v₁ :: rest => k v v₁ rest
      | _ => m.underflow)
      (match n.frame.stack with
      | w :: w₁ :: rest => k' w w₁ rest
      | _ => n.underflow) := by
  obtain ⟨hv, hw⟩ | ⟨v, vs, w, ws, hv, hw, hvw, hrest⟩ := h.frame.stack.shape
  · simp only [hv, hw]
    exact h.underflow.now
  · obtain ⟨rfl, rfl⟩ | ⟨v₁, vs₁, w₁, ws₁, rfl, rfl, hvw₁, hrest₁⟩ := hrest.shape
    · simp only [hv, hw]
      exact h.underflow.now
    · simp only [hv, hw]
      exact hk v v₁ vs₁ w w₁ ws₁ hvw hvw₁ hrest₁

theorem Alike.operands₃ {k k' : Value → Value → Value → List Value → Next}
    (hk : ∀ v v₁ v₂ vs w w₁ w₂ ws, v.Alike r w → v₁.Alike r w₁ → v₂.Alike r w₂ → ValuesAlike r vs ws →
      (k v v₁ v₂ vs).AlikeFrom r (k' w w₁ w₂ ws)) :
    Next.AlikeFrom r
      (match m.frame.stack with
      | v :: v₁ :: v₂ :: rest => k v v₁ v₂ rest
      | _ => m.underflow)
      (match n.frame.stack with
      | w :: w₁ :: w₂ :: rest => k' w w₁ w₂ rest
      | _ => n.underflow) := by
  obtain ⟨hv, hw⟩ | ⟨v, vs, w, ws, hv, hw, hvw, hrest⟩ := h.frame.stack.shape
  · simp only [hv, hw]
    exact h.underflow.now
  · obtain ⟨rfl, rfl⟩ | ⟨v₁, vs₁, w₁, ws₁, rfl, rfl, hvw₁, hrest₁⟩ := hrest.shape
    · simp only [hv, hw]
      exact h.underflow.now
    · obtain ⟨rfl, rfl⟩ | ⟨v₂, vs₂, w₂, ws₂, rfl, rfl, hvw₂, hrest₂⟩ := hrest₁.shape
      · simp only [hv, hw]
        exact h.underflow.now
      · simp only [hv, hw]
        exact hk v v₁ v₂ vs₂ w w₁ w₂ ws₂ hvw hvw₁ hvw₂ hrest₂

theorem Alike.operandList (count : Nat) {k k' : List Value → List Value → Next}
    (hk : ∀ xs vs ys ws, ValuesAlike r xs ys → ValuesAlike r vs ws → (k xs vs).AlikeFrom r (k' ys ws)) :
    Next.AlikeFrom r
      (match popMany? count m.frame.stack with
      | some (xs, rest) => k xs rest
      | none => m.underflow)
      (match popMany? count n.frame.stack with
      | some (ys, rest) => k' ys rest
      | none => n.underflow) := by
  obtain ⟨hv, hw⟩ | ⟨xs, vs, ys, ws, hv, hw, hxy, hrest⟩ := alike_popMany? h.frame.stack count
  · simp only [hv, hw]
    exact h.underflow.now
  · simp only [hv, hw]
    exact hk xs vs ys ws hxy hrest

theorem Alike.calleeAndArgs (count : Nat) {k k' : List Value → Value → List Value → Next}
    (hk : ∀ xs v vs ys w ws, ValuesAlike r xs ys → v.Alike r w → ValuesAlike r vs ws →
      (k xs v vs).AlikeFrom r (k' ys w ws)) :
    Next.AlikeFrom r
      (match popMany? count m.frame.stack with
      | some (xs, v :: rest) => k xs v rest
      | _ => m.underflow)
      (match popMany? count n.frame.stack with
      | some (ys, w :: rest) => k' ys w rest
      | _ => n.underflow) := by
  obtain ⟨hv, hw⟩ | ⟨xs, vs, ys, ws, hv, hw, hxy, hrest⟩ := alike_popMany? h.frame.stack count
  · simp only [hv, hw]
    exact h.underflow.now
  · obtain ⟨rfl, rfl⟩ | ⟨v, vs₁, w, ws₁, rfl, rfl, hvw, hrest₁⟩ := hrest.shape
    · simp only [hv, hw]
      exact h.underflow.now
    · simp only [hv, hw]
      exact hk xs v vs₁ ys w ws₁ hxy hvw hrest₁

theorem Alike.walk {k k' : Iter → List Iter → Next}
    (hk : ∀ x xs y ys, x.Alike r y → List.Forall₂ (Iter.Alike r) xs ys → (k x xs).AlikeFrom r (k' y ys)) :
    Next.AlikeFrom r
      (match m.frame.iters with
      | x :: outer => k x outer
      | [] => m.underflow)
      (match n.frame.iters with
      | y :: outer => k' y outer
      | [] => n.underflow) := by
  obtain ⟨hx, hy⟩ | ⟨x, xs, y, ys, hx, hy, hxy, hrest⟩ := iters_shape h.frame.iters
  · simp only [hx, hy]
    exact h.underflow.now
  · simp only [hx, hy]
    exact hk x xs y ys hxy hrest

end Operands

/-! ### One instruction -/

theorem alike_exec (limits : Limits) (h : m.Alike r n) (hm : m.Level) {i : Instruction}
    (hi : m.frame.instruction? = some i) : (m.exec limits i).AlikeFrom r (n.exec limits i) := by
  have hs := h.thread.store
  have hstack := h.frame.stack
  -- What makes environments or arrays lets the correspondence grow; everything else goes on under the one that there was.
  cases hop : i.op <;> simp only [exec, hop]
  case const value =>
    refine (h.advance (.cons (.plain ?_) hstack)).now
    cases value <;> trivial
  case load name =>
    obtain ⟨hv, hw⟩ | ⟨v, w, hv, hw, hvw⟩ := option_rel_iff.mp (alike_get? hs h.frame.env name)
    · rw [hv, hw]
      exact (h.raiseHere _ _).now
    · rw [hv, hw]
      exact (h.advance (.cons hvw hstack)).now
  case declare name =>
    refine h.operand fun v _ w _ hvw _ => ?_
    exact (h.define_advance h.frame.env hvw name).now
  case store name =>
    refine h.operand fun v _ w _ hvw _ => ?_
    exact (h.define_advance (h.owner name) hvw name).now
  case dup =>
    refine h.operand fun v _ w _ hvw _ => ?_
    exact (h.advance (.cons hvw hstack)).now
  case dup2 =>
    refine h.operands₂ fun v v₁ _ w w₁ _ hvw hvw₁ _ => ?_
    exact (h.advance (.cons hvw (.cons hvw₁ hstack))).now
  case pop =>
    refine h.operand fun _ _ _ _ _ hrest => ?_
    exact (h.advance hrest).now
  case popResult =>
    refine h.operand fun v _ w _ hvw hrest => ?_
    exact ((h.withResult hvw).advance hrest).now
  case result => exact (h.advance (.cons h.frame.result hstack)).now
  case binary op =>
    refine h.operands₂ fun v v₁ _ w w₁ _ hvw hvw₁ hrest => ?_
    obtain ⟨r', hgrows, hs', hresult⟩ := alike_binaryOp hs op hvw₁ hvw
    have hafter := h.withStore hgrows hs'
    cases hx : (binaryOp m.thread.store op v₁ v).1 <;>
      cases hy : (binaryOp n.thread.store op w₁ w).1 <;> rw [hx, hy] at hresult <;> cases hresult
    · exact ⟨r', hgrows, hafter.raiseHere _ _⟩
    · exact ⟨r', hgrows, hafter.advance (.cons ‹_› (hrest.grow hgrows))⟩
  case unary op =>
    refine h.operand fun v _ w _ hvw hrest => ?_
    have hresult := alike_unaryOp hs op hvw
    cases hx : unaryOp m.thread.store op v <;> cases hy : unaryOp n.thread.store op w <;>
      rw [hx, hy] at hresult <;> cases hresult
    · exact (h.raiseHere _ _).now
    · exact (h.advance (.cons ‹_› hrest)).now
  case makeArray count =>
    refine h.operandList count fun xs _ ys _ hxy hrest => ?_
    have hgrows := r.grows_addArray m.thread.store.arrays.size n.thread.store.arrays.size
    have hnew := hs.newArray (show ValuesAlike r xs.toArray.toList ys.toArray.toList by simpa using hxy)
    refine ⟨_, hgrows, (h.withStore hgrows hnew).advance (.cons (.array ?_) (hrest.grow hgrows))⟩
    exact .inr ⟨rfl, rfl⟩
  case indexGet =>
    refine h.operands₂ fun v v₁ _ w w₁ _ hvw hvw₁ hrest => ?_
    have hresult := alike_indexGet hs hvw₁ hvw
    cases hx : indexGet m.thread.store v₁ v <;> cases hy : indexGet n.thread.store w₁ w <;>
      rw [hx, hy] at hresult <;> cases hresult
    · exact (h.raiseHere _ _).now
    · exact (h.advance (.cons ‹_› hrest)).now
  case indexSet =>
    refine h.operands₃ fun v v₁ v₂ _ w w₁ w₂ _ hvw hvw₁ hvw₂ hrest => ?_
    obtain ⟨hresult, hs'⟩ := alike_indexSet hs hvw₂ hvw₁ hvw
    have hafter := h.withStore (.refl r) hs'
    simp only [hresult]
    split
    · exact (hafter.advance (.cons hvw hrest)).now
    · exact (hafter.raiseHere _ _).now
  case branch ip => exact (h.branchTo hstack ip).now
  case branchIfFalse ip =>
    refine h.operand fun v _ w _ hvw hrest => ?_
    rw [hvw.truthy hs]
    split
    · exact (h.advance hrest).now
    · exact (h.branchTo hrest ip).now
  case branchIfTrue ip =>
    refine h.operand fun v _ w _ hvw hrest => ?_
    rw [hvw.truthy hs]
    split
    · exact (h.branchTo hrest ip).now
    · exact (h.advance hrest).now
  case enterScope =>
    have hgrows := r.grows_addEnv m.thread.store.envs.size n.thread.store.envs.size
    have hafter := h.withStore hgrows (hs.extend h.frame.env)
    refine ⟨_, hgrows, (hafter.withEnv ?_).advance (hstack.grow hgrows)⟩
    exact .inr ⟨rfl, rfl⟩
  case exitScope =>
    obtain ⟨hi', hj'⟩ | ⟨i', j', hi', hj', hij⟩ := h.parent
    · rw [hi', hj']
      exact h.underflow.now
    · rw [hi', hj']
      exact ((h.withEnv hij).advance hstack).now
  case iterInit =>
    refine h.operand fun v _ w _ hvw hrest => ?_
    exact ((h.withIters (.cons (alike_iterOf hs hvw) h.frame.iters)).advance hrest).now
  case iterNext ip =>
    refine h.walk fun x _ y _ hxy hrest => ?_
    have hget := hxy.elements.getElem? x.next
    simp only [Array.getElem?_toList] at hget
    rw [← hxy.next]
    obtain ⟨hv, hw⟩ | ⟨v, w, hv, hw, hvw⟩ := option_rel_iff.mp hget
    · simp only [hv, hw]
      exact (h.branchTo hstack ip).now
    · simp only [hv, hw]
      have hmoved : Iter.Alike r { x with next := x.next + 1, current := v }
          { y with next := x.next + 1, current := w } := ⟨hxy.elements, rfl, hvw⟩
      exact ((h.withIters (.cons hmoved hrest)).advance hstack).now
  case iterBind name =>
    refine h.walk fun x _ y _ hxy _ => ?_
    exact (h.define_advance h.frame.env hxy.current name).now
  case iterPop =>
    refine h.walk fun _ _ _ _ _ hrest => ?_
    exact ((h.withIters hrest).advance hstack).now
  case call name count landing =>
    refine h.calleeAndArgs count fun xs v vs ys w ws hxy hvw hrest => ?_
    have hf := h.frame
    have hsuspended : Suspended.Alike r ⟨{ m.frame with stack := vs }, landing, i.span⟩
        ⟨{ n.frame with stack := ws }, landing, i.span⟩ :=
      ⟨⟨hf.unit, hf.env, hf.baseDepth, hf.args, hrest, hf.iters, hf.result, hf.ip⟩, rfl, rfl⟩
    exact alike_call h.toAlikeOutside (.cons hsuspended h.callers) hvw hxy
  case makeSub unit =>
    refine (h.advance (.cons ?_ hstack)).now
    exact Value.Alike.sub (f := ⟨"", unit.params, m.frame.env, some unit, unit.span⟩) h.frame.env
  case ret =>
    refine h.operand fun v _ w _ hvw _ => ?_
    exact (alike_leave h hvw).now
  case jump target => exact (Next.Alike.running (h.withFrame (h.frame.jump hs target))).now
  case signal marker => exact (alike_signal h marker).now
  case dispatch table => exact (alike_dispatch h table).now
  case tailCall count reuse =>
    have hend := hm.not_ground hi (by rw [hop]; rfl)
    split
    · refine h.operand fun v _ w _ hvw _ => ?_
      exact alike_tailCall h hend hvw h.frame.args
    · refine h.calleeAndArgs count fun xs v _ ys w _ hxy hvw _ => ?_
      exact alike_tailCall h hend hvw hxy

end Machine

theorem alike_step {r : Pairing} (limits : Limits) {m n : Machine} (h : m.Alike r n) (hm : m.Level) :
    (step limits m).AlikeFrom r (step limits n) := by
  have hcounted : ∀ steps polls, Machine.Alike r { m with steps := steps, polls := polls }
      { n with steps := steps, polls := polls } :=
    fun _ _ => ⟨⟨h.thread, h.base, rfl, rfl, h.out, h.events⟩, h.frame, h.callers⟩
  unfold step
  rw [← h.frame.ip, ← h.frame.unit, ← h.steps, ← h.polls]
  split
  · exact (Machine.alike_leave h (.plain (v := .undefined) trivial)).now
  · rename_i ip hip
    split
    · exact (Machine.alike_raise h.toAlikeOutside h.callers _).now
    · rename_i i hi
      have hinstruction := Frame.instruction?_eq_some.mpr ⟨ip, hip, hi⟩
      dsimp only
      split
      · split
        · exact (Machine.alike_raise (hcounted _ _).toAlikeOutside h.callers _).now
        · exact Machine.alike_exec limits (hcounted _ _) (hm.counted _ _) hinstruction
      · have hcount := hcounted (m.steps + 1) m.polls
        have hexec := Machine.alike_exec limits hcount (hm.counted _ m.polls) hinstruction
        rw [h.polls] at hexec ⊢
        exact hexec

end KestrelLang
