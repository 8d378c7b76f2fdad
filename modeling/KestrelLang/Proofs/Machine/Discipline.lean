import KestrelLang.Proofs.Machine.Needs

/-! # Stack, scope and iterator discipline

* `Frame.opened` — the environments that a frame has open.
* `Frame.Lands` — a jump makes exactly the environment current that is open at the depth of its target.
* `Frame.InOrder` — a frame has the shape of its address, and its next instruction finds what it needs.
* `frames_in_order` — all frames of all runs are in order. -/

namespace KestrelLang

open KestrelLang.Code

/-! ## Targets -/

namespace JumpTarget

/-- The scope depth of a target; outside the frame only its own environment is left. -/
def scopes : JumpTarget → Nat
  | .exit => 0
  | .to _ scopes _ => scopes

def iters : JumpTarget → Nat
  | .exit => 0
  | .to _ _ iters => iters

end JumpTarget

/-! ## Open environments -/

namespace Frame

variable {s s' : Store} {f : Frame} {below : Nat}

/-- The environments that a frame has open. The frame's own environment comes first; that at position `n`
    is open at scope depth `n`, and the last one is current. -/
def opened (s : Store) (f : Frame) : List Nat := (s.path (s.depth f.env - f.baseDepth) f.env).reverse

theorem length_opened (hs : s.Nested) (f : Frame) :
    (f.opened s).length = s.depth f.env - f.baseDepth + 1 := by
  rw [opened, List.length_reverse, hs.length_path (Nat.sub_le ..)]

theorem getLast?_opened (s : Store) (f : Frame) : (f.opened s).getLast? = some f.env := by
  rw [opened, List.getLast?_reverse, Store.head_path]

theorem Valid.opened_grow (hf : f.Valid s) (hs : s.Nested) (h : s.Grows s') :
    f.opened s' = f.opened s := by
  rw [opened, opened, h.depth hf.env, h.path hs hf.env]

/-- A jump to the target makes exactly the environment current that the frame has open at the depth of
    the target, and leaves as many iterators as the target says. -/
structure Lands (s : Store) (f : Frame) (target : JumpTarget) : Prop where
  env : (f.opened s)[target.scopes]? = some (f.jump s target).env
  depth : s.depth (f.jump s target).env = f.baseDepth + target.scopes
  opened : (f.jump s target).opened s = (f.opened s).take (target.scopes + 1)
  iters : (f.jump s target).iters = f.iters.drop (f.iters.length - target.iters)
  walks : (f.jump s target).iters.length = target.iters

theorem env_jump (f : Frame) (s : Store) (target : JumpTarget) :
    (f.jump s target).env = s.unwind (f.baseDepth + target.scopes) f.env := by
  cases target <;> rfl

theorem baseDepth_jump (f : Frame) (s : Store) (target : JumpTarget) :
    (f.jump s target).baseDepth = f.baseDepth := by
  cases target <;> rfl

theorem iters_jump (f : Frame) (s : Store) (target : JumpTarget) :
    (f.jump s target).iters = f.iters.drop (f.iters.length - target.iters) := by
  cases target with
  | exit => simp [jump, JumpTarget.iters]
  | «to» ip scopes iters => rfl

/-- A target that is at home in the frame has a shape no larger than the frame's. -/
theorem scopes_le {shapes : Nat → Option Shape} {sh : Shape} {target : JumpTarget}
    (h : TargetFits shapes sh target) : target.scopes ≤ sh.scopes ∧ target.iters ≤ sh.iters := by
  cases target with
  | exit => exact ⟨Nat.zero_le _, Nat.zero_le _⟩
  | «to» ip scopes iters => exact ⟨h.1, h.2.1⟩

theorem Valid.lands (hf : f.Valid s) (hs : s.Nested) {target : JumpTarget}
    (hscopes : target.scopes ≤ s.depth f.env - f.baseDepth) (hiters : target.iters ≤ f.iters.length) :
    f.Lands s target := by
  have hbase := hf.base
  have hdepth : s.depth (f.jump s target).env = f.baseDepth + target.scopes := by
    rw [env_jump]
    exact hs.depth_unwind (by omega)
  have hopened : (f.jump s target).opened s = (f.opened s).take (target.scopes + 1) := by
    -- The jump drops as many environments as the frame has open beyond the depth of the target.
    have hdrop := hs.drop_path (Nat.sub_le (s.depth f.env - f.baseDepth) target.scopes)
      (Nat.sub_le (s.depth f.env) f.baseDepth)
    have hrest : s.depth f.env - f.baseDepth - (s.depth f.env - f.baseDepth - target.scopes) =
        target.scopes := by omega
    have hgoal : s.depth f.env - (s.depth f.env - f.baseDepth - target.scopes) =
        f.baseDepth + target.scopes := by omega
    have hkeep : s.depth f.env - f.baseDepth + 1 - (s.depth f.env - f.baseDepth - target.scopes) =
        target.scopes + 1 := by omega
    rw [hrest, hgoal, ← env_jump] at hdrop
    rw [opened, hdepth, baseDepth_jump, Nat.add_sub_cancel_left, ← hdrop, List.reverse_drop,
      hs.length_path (Nat.sub_le ..), hkeep]
    rfl
  have hlength : ((f.opened s).take (target.scopes + 1)).length = target.scopes + 1 := by
    rw [List.length_take, length_opened hs]
    omega
  refine ⟨?_, hdepth, hopened, iters_jump f s target, ?_⟩
  · have hlast := getLast?_opened s (f.jump s target)
    rw [hopened, List.getLast?_eq_getElem?, hlength, Nat.add_sub_cancel,
      List.getElem?_take_of_lt (Nat.lt_succ_self _)] at hlast
    exact hlast
  · rw [iters_jump, List.length_drop]
    omega

end Frame

/-! ## Frames in order -/

/-- The frame has the shape that `shapes` gives for its address, once the `below` operands are back that
    were taken off its stack. There is an instruction at the address, and it finds its operands, its
    iterators and the scope that it closes; all of its targets are open in the frame. -/
structure Frame.InOrder (shapes : Nat → Option Shape) (s : Store) (below : Nat) (f : Frame) :
    Prop where
  shaped : shapeAt shapes f.ip =
    some ⟨f.stack.length + below, s.depth f.env - f.baseDepth, f.iters.length⟩
  base : f.baseDepth ≤ s.depth f.env
  fetched : f.ip.isSome → f.instruction?.isSome
  operands : ∀ i, f.instruction? = some i → i.op.arity ≤ f.stack.length + below
  walks : ∀ i, f.instruction? = some i → i.op.walks ≤ f.iters.length
  closes : ∀ i, f.instruction? = some i → i.op = .exitScope →
    ∃ env, s.parent f.env = some env ∧ f.baseDepth ≤ s.depth env
  targets : ∀ i target, f.instruction? = some i → target ∈ i.op.targets → f.Lands s target

theorem Frame.Valid.inOrder {shapes : Nat → Option Shape} {s : Store} {f : Frame} {below : Nat}
    (hf : f.Valid s) (hs : s.Nested) (hshaped : f.Shaped s below)
    (hshapes : Consistent f.unit.code shapes) : f.InOrder shapes s below := by
  have hfits : ∀ i, f.instruction? = some i →
      ∃ ip, OperationFits shapes ip (f.shape s below) i.op := by
    intro i hi
    obtain ⟨ip, hip, hcode⟩ := Frame.instruction?_eq_some.mp hi
    exact ⟨ip, hshapes.fits (hshaped.at_ip hip hshapes) hcode⟩
  refine ⟨hshaped shapes hshapes, hf.base, fun hip => ?_, fun i hi => ?_, fun i hi => ?_,
    fun i hi hop => ?_, fun i target hi htarget => ?_⟩
  · obtain ⟨ip, hip⟩ := Option.isSome_iff_exists.mp hip
    obtain ⟨i, hi⟩ := hshapes.within (hshaped.at_ip hip hshapes)
    exact Option.isSome_iff_exists.mpr ⟨i, Frame.instruction?_eq_some.mpr ⟨ip, hip, hi⟩⟩
  · obtain ⟨ip, hfit⟩ := hfits i hi
    exact hfit.arity_le
  · obtain ⟨ip, hfit⟩ := hfits i hi
    exact hfit.walks_le
  · obtain ⟨ip, hfit⟩ := hfits i hi
    exact Frame.exists_parent hs (hop ▸ hfit)
  · obtain ⟨ip, hfit⟩ := hfits i hi
    obtain ⟨hscopes, hiters⟩ := Frame.scopes_le (hfit.target_fits htarget)
    exact hf.lands hs hscopes hiters

theorem Suspended.Sound.lands {s : Store} {x : Suspended} (hx : x.Sound s) (hs : s.Nested) :
    x.frame.Lands s x.landing := by
  obtain ⟨ip, i, name, count, hip, hi, hop, -, hshaped⟩ := hx.call
  obtain ⟨body, hbody⟩ := hx.valid.unit
  refine (hx.valid.inOrder hs hshaped hbody.consistent).targets i x.landing
    (Frame.instruction?_eq_some.mpr ⟨ip, hip, hi⟩) ?_
  simp [hop, Operation.targets]

/-! ## How scopes open and close -/

def openedBy (s : Store) (callers : List Suspended) : List (List Nat) :=
  callers.map fun x => x.frame.opened s

theorem openedBy_grow {s s' : Store} {callers : List Suspended} (hs : s.Nested)
    (hcallers : ∀ x ∈ callers, x.Sound s) (h : s.Grows s') : openedBy s' callers = openedBy s callers :=
  List.map_congr_left fun x hx => (hcallers x hx).valid.opened_grow hs h

namespace Machine

/-- The environments that the frames of a machine have open, those of the running frame first. -/
def opened (m : Machine) : List (List Nat) :=
  m.frame.opened m.thread.store :: openedBy m.thread.store m.callers

end Machine

def Frame.Leaves (f : Frame) : Prop :=
  f.ip = none ∨ ∃ i, f.instruction? = some i ∧
    (i.op = .ret ∨ (∃ marker, i.op = .signal marker) ∨ ∃ count reuse, i.op = .tailCall count reuse)

/-- What a step of the frame `f`, on behalf of `callers`, does to the environments that the frames have
    open: they are stacks. A new environment is one that the store does not have yet. -/
inductive ScopeMove (s : Store) (f : Frame) (callers : List Suspended) : List (List Nat) → Prop
  | stays : (∀ i, f.instruction? = some i → i.op ≠ .enterScope ∧ i.op ≠ .exitScope) →
      ScopeMove s f callers (f.opened s :: openedBy s callers)
  | opens {i : Instruction} {env : Nat} : f.instruction? = some i → i.op = .enterScope →
      s.envs.size ≤ env → ScopeMove s f callers ((f.opened s ++ [env]) :: openedBy s callers)
  | closes {i : Instruction} : f.instruction? = some i → i.op = .exitScope →
      ScopeMove s f callers ((f.opened s).dropLast :: openedBy s callers)
  | jumps {i : Instruction} {target : JumpTarget} : f.instruction? = some i → target ∈ i.op.targets →
      ScopeMove s f callers ((f.opened s).take (target.scopes + 1) :: openedBy s callers)
  | calls {i : Instruction} {name : String} {count : Nat} {landing : JumpTarget} {env : Nat} :
      f.instruction? = some i → i.op = .call name count landing → s.envs.size ≤ env →
      ScopeMove s f callers ([env] :: f.opened s :: openedBy s callers)
  | replaces {env : Nat} : f.Leaves → s.envs.size ≤ env →
      ScopeMove s f callers ([env] :: openedBy s callers)
  | returns : f.Leaves → ScopeMove s f callers (openedBy s callers)
  | lands {x : Suspended} {rest : List Suspended} : f.Leaves → callers = x :: rest →
      ScopeMove s f callers ((x.frame.opened s).take (x.landing.scopes + 1) :: openedBy s rest)

/-- If the run goes on, then the environments that its frames have open are as `P` says. -/
def Next.Opens (P : List (List Nat) → Prop) : Next → Prop
  | .running m => P m.opened
  | .done _ _ => True

/-- What may come of the environments when another frame takes over: those of the caller are left, perhaps
    cut back for the landing of its call, or a callee starts in a new one. -/
structure Handover (s : Store) (callers : List Suspended) (P : List (List Nat) → Prop) : Prop where
  returns : P (openedBy s callers)
  lands : ∀ x rest, callers = x :: rest →
    P ((x.frame.opened s).take (x.landing.scopes + 1) :: openedBy s rest)
  starts : ∀ env, s.envs.size ≤ env → P ([env] :: openedBy s callers)

theorem Handover.grow {s s' : Store} {callers : List Suspended} {P : List (List Nat) → Prop}
    (h : Handover s callers P) (hs : s.Nested) (hcallers : ∀ x ∈ callers, x.Sound s)
    (hgrows : s.Grows s') : Handover s' callers P := by
  have hopened := openedBy_grow hs hcallers hgrows
  refine ⟨hopened ▸ h.returns, fun x rest hx => ?_, fun env henv => ?_⟩
  · subst hx
    rw [List.forall_mem_cons] at hcallers
    rw [hcallers.1.valid.opened_grow hs hgrows, openedBy_grow hs hcallers.2 hgrows]
    exact h.lands x rest rfl
  · rw [hopened]
    exact h.starts env (Nat.le_trans hgrows.size henv)

namespace Machine

variable {m : Machine} {limits : Limits} {callers : List Suspended} {next : Next} {P : List (List Nat) → Prop}

theorem opens_raiseTrouble (t : Trouble) : (m.raiseTrouble callers t).Opens P := by
  cases t <;> trivial

theorem opens_raiseHere (span : Span) (t : Trouble) : (m.raiseHere span t).Opens P := by
  cases t <;> trivial

theorem opens_deliver (hs : m.thread.store.Nested) (hcallers : ∀ x ∈ callers, x.Sound m.thread.store)
    (hover : Handover m.thread.store callers P) (v : Value) : (m.deliver callers v).Opens P := by
  cases callers with
  | nil => trivial
  | cons x rest =>
    have hlands := (hcallers x List.mem_cons_self).lands hs
    simp only [deliver]
    split
    · have hmoved := hover.lands x rest rfl
      rw [← hlands.opened] at hmoved
      exact hmoved
    · exact hover.returns

theorem Entered.opens {callee : Value} {args : List Value} (h : m.Entered limits callers args callee next)
    (ht : m.thread.Sound) (hcallers : ∀ x ∈ callers, x.Sound m.thread.store) (hcallee : callee.Sound m.thread.store)
    (hargs : ValuesSound m.thread.store args) (hover : Handover m.thread.store callers P) : next.Opens P := by
  have hs := ht.store.nested
  cases h with
  | @starts f u =>
    have hextend := Store.onward_extend ht.store hcallee.1
    have hbind := onward_bindParams hextend.sound (hargs.grow hextend.grows)
      (m.thread.store.extend f.closure).1 u.params
    have hstarts := hover.starts (m.thread.store.extend f.closure).1 (Nat.le_refl _)
    rw [← openedBy_grow hs hcallers (hextend.trans hbind).grows] at hstarts
    -- A frame that starts has only its own environment open.
    simp only [Next.Opens, opened, Frame.opened, started, Frame.start, Nat.sub_self, Store.path,
      List.reverse_singleton]
    exact hstarts
  | @delivers _ _ b =>
    -- A builtin is done at once and hands its value to the caller, in the store that it left.
    obtain ⟨honward, -⟩ := onward_apply ht.store hargs b limits.outLimit m.out
    have hcallers' := fun x hx => (hcallers x hx).grow honward.grows
    exact opens_deliver honward.sound.nested hcallers' (hover.grow hs hcallers honward.grows) _
  | noCode | arity | notCallable | fails => exact opens_raiseTrouble _
  | hollow => trivial

theorem Called.opens {callee : Value} {args : List Value} (h : m.Called limits callers callee args next)
    (ht : m.thread.Sound) (hcallers : ∀ x ∈ callers, x.Sound m.thread.store) (hcallee : callee.Sound m.thread.store)
    (hargs : ValuesSound m.thread.store args) (hover : Handover m.thread.store callers P) : next.Opens P := by
  cases h with
  | refused => exact opens_raiseTrouble _
  | admitted _ hentered => exact hentered.opens ⟨ht.store, ht.trampoline⟩ hcallers hcallee hargs hover

theorem Left.opens {v : Value} (h : m.Left limits v next) (hm : m.Valid)
    (hover : Handover m.thread.store m.callers P) : next.Opens P := by
  cases h with
  | ended | astray => trivial
  | replaced _ _ hparked hentered =>
    obtain ⟨htarget, hargs⟩ := hm.thread.trampoline _ hparked
    exact hentered.opens ⟨hm.thread.store, nofun⟩ hm.callers htarget hargs hover
  | delivers => exact opens_deliver hm.thread.store.nested hm.callers hover v

theorem opens_tailCall (hm : m.Valid) {callee : Value} (hcallee : callee.Sound m.thread.store)
    {args : List Value} (hargs : ValuesSound m.thread.store args)
    (hover : Handover m.thread.store m.callers P) : (m.tailCall limits callee args).Opens P := by
  unfold tailCall
  cases hpark : m.thread.trampoline.park? ⟨callee, args⟩ with
  | none => trivial
  | some slot => exact (left ..).opens (hm.park hcallee hargs hpark) hover

theorem opens_signal (hm : m.Valid) (marker : Marker) (hover : Handover m.thread.store m.callers P) :
    (m.signal limits marker).Opens P := by
  unfold signal
  split
  · trivial
  · exact (left ..).opens ⟨⟨hm.thread.store, hm.thread.trampoline⟩, hm.frame, hm.callers⟩ hover

theorem opens_dispatch {table : DispatchTable}
    (hlands : ∀ target ∈ (Operation.dispatch table : Operation CodeUnit).targets,
      m.frame.Lands m.thread.store target) (hstay : P m.opened)
    (hjump : ∀ target ∈ (Operation.dispatch table : Operation CodeUnit).targets,
      P ((m.frame.opened m.thread.store).take (target.scopes + 1) ::
        openedBy m.thread.store m.callers)) : (m.dispatch table).Opens P := by
  unfold dispatch
  split
  · exact hstay
  · split
    · trivial
    · split
      · trivial
      · rename_i target htarget
        have hmem := DispatchTable.mem_targets htarget
        have hmoved := hjump target hmem
        rw [← (hlands target hmem).opened] at hmoved
        dsimp only
        split <;> exact hmoved

theorem Valid.opened_eq (hm : m.Valid) {m' : Machine} (h : m.thread.store.Grows m'.thread.store)
    (henv : m'.frame.env = m.frame.env) (hbase : m'.frame.baseDepth = m.frame.baseDepth)
    (hcallers : m'.callers = m.callers) : m'.opened = m.opened := by
  have hs := hm.thread.store.nested
  have hframe : m'.frame.opened m'.thread.store = m.frame.opened m'.thread.store := by
    rw [Frame.opened, Frame.opened, henv, hbase]
  rw [opened, opened, hframe, hcallers, hm.frame.opened_grow hs h, openedBy_grow hs hm.callers h]

end Machine

namespace Frame

variable {s : Store} {f : Frame}

theorem Valid.opened_enter (hf : f.Valid s) (hs : s.Nested) :
    opened (s.extend f.env).2 { f with env := (s.extend f.env).1 } =
      f.opened s ++ [(s.extend f.env).1] := by
  have hbase := hf.base
  have hdeeper : s.depth f.env + 1 - f.baseDepth = s.depth f.env - f.baseDepth + 1 := by omega
  simp only [opened, Store.depth_extend, hdeeper, Store.path, Store.parent_extend, List.reverse_cons,
    (Store.Grows.extend s f.env).path hs hf.env]

theorem opened_exit (hs : s.Nested) {env : Nat}
    (henv : s.parent f.env = some env) (hopen : f.baseDepth ≤ s.depth env) :
    opened s { f with env := env } = (f.opened s).dropLast := by
  obtain ⟨-, hdepth⟩ := hs.inward henv
  have hdeeper : s.depth f.env - f.baseDepth = s.depth env - f.baseDepth + 1 := by omega
  simp only [opened, hdeeper, Store.path, henv, List.reverse_cons, List.dropLast_concat]

end Frame

namespace Machine

variable {m : Machine} {limits : Limits}

/-- A frame that ends hands over to its caller, or to the callee of its tail call. -/
theorem handover_of_leaves {s : Store} {f : Frame} {callers : List Suspended} (h : f.Leaves) :
    Handover s callers (ScopeMove s f callers) :=
  ⟨.returns h, fun _ _ hcallers => .lands h hcallers, fun _ => .replaces h⟩

theorem Sound.opens_exec (hm : m.Sound) {i : Instruction} (hi : m.frame.instruction? = some i) :
    (m.exec limits i).Opens (ScopeMove m.thread.store m.frame m.callers) := by
  obtain ⟨ip, hip, hcode⟩ := Frame.instruction?_eq_some.mp hi
  obtain ⟨body, hbody⟩ := hm.frame.unit
  have hs := hm.thread.store.nested
  have hstack := hm.frame.stack
  have horder := hm.frame.inOrder hs hm.shaped hbody.consistent
  have hstays : i.op ≠ .enterScope ∧ i.op ≠ .exitScope →
      ScopeMove m.thread.store m.frame m.callers m.opened := by
    intro hop
    refine .stays fun i' hi' => ?_
    cases hi.symm.trans hi'
    exact hop
  -- What changes neither the scopes of the frame nor its callers leaves all environments as they are.
  have hstay : i.op ≠ .enterScope ∧ i.op ≠ .exitScope → ∀ {m' : Machine},
      m.thread.store.Grows m'.thread.store → m'.frame.env = m.frame.env →
      m'.frame.baseDepth = m.frame.baseDepth → m'.callers = m.callers →
      ScopeMove m.thread.store m.frame m.callers m'.opened := by
    intro hop m' hgrows henv hbase hcallers
    rw [hm.opened_eq hgrows henv hbase hcallers]
    exact hstays hop
  cases hop : i.op <;> simp only [exec, hop]
  case enterScope =>
    have hopened := hm.frame.opened_enter hs
    have hcallers := openedBy_grow hs hm.callers (Store.Grows.extend m.thread.store m.frame.env)
    have hnew : m.thread.store.envs.size ≤ (m.thread.store.extend m.frame.env).1 := Nat.le_refl _
    have hmove : ScopeMove m.thread.store m.frame m.callers _ := .opens hi hop hnew
    rw [← hopened, ← hcallers] at hmove
    exact hmove
  case exitScope =>
    obtain ⟨env, henv, hopen⟩ := horder.closes i hi hop
    have hmove : ScopeMove m.thread.store m.frame m.callers _ := .closes hi hop
    rw [← Frame.opened_exit hs henv hopen] at hmove
    simp only [henv]
    exact hmove
  case jump target =>
    have hmem : target ∈ i.op.targets := by simp [hop, Operation.targets]
    have hmove : ScopeMove m.thread.store m.frame m.callers _ := .jumps hi hmem
    rw [← (horder.targets i target hi hmem).opened] at hmove
    exact hmove
  case dispatch table =>
    rw [hop] at hstays
    exact opens_dispatch (fun target htarget => horder.targets i target hi (hop ▸ htarget))
      (hstays (by simp)) fun target htarget => .jumps hi (hop ▸ htarget)
  case ret =>
    have hleaves : m.frame.Leaves := .inr ⟨i, hi, .inl hop⟩
    split
    · exact (left ..).opens hm.toValid (handover_of_leaves hleaves)
    · trivial
  case signal marker =>
    have hleaves : m.frame.Leaves := .inr ⟨i, hi, .inr (.inl ⟨marker, hop⟩)⟩
    exact opens_signal hm.toValid marker (handover_of_leaves hleaves)
  case tailCall count reuse =>
    have hleaves : m.frame.Leaves := .inr ⟨i, hi, .inr (.inr ⟨count, reuse, hop⟩)⟩
    split
    · split
      · rename_i callee rest hv
        rw [hv] at hstack
        exact opens_tailCall hm.toValid (ValuesSound.cons.mp hstack).1 hm.frame.args (handover_of_leaves hleaves)
      · trivial
    · split
      · rename_i args callee rest hv
        obtain ⟨hargs, hrest, -, -⟩ := valuesSound_popMany? hstack hv
        exact opens_tailCall hm.toValid (ValuesSound.cons.mp hrest).1 hargs (handover_of_leaves hleaves)
      · trivial
  case call name count landing =>
    split
    · rename_i args callee rest hv
      obtain ⟨hargs, hrest, -, -⟩ := valuesSound_popMany? hstack hv
      refine (called ..).opens hm.thread (List.forall_mem_cons.mpr ⟨hm.suspend hip hcode hop hv, hm.callers⟩)
        (ValuesSound.cons.mp hrest).1 hargs ⟨?_, ?_, fun env => .calls hi hop⟩
      · rw [hop] at hstays
        exact hstays (by simp)
      · rintro x rest' heq
        cases heq
        exact .jumps hi (by simp [hop, Operation.targets])
    · trivial
  all_goals
    rw [hop] at hstay
    have hwithin := @hstay (by simp)
  case declare | store | iterBind =>
    split
    · exact hwithin (.define ..) rfl rfl rfl
    · trivial
  case binary op =>
    split
    · rename_i right left rest hv
      have hgrows := (onward_binaryOp hm.thread.store op left right).1.grows
      split
      · exact hwithin hgrows rfl rfl rfl
      · exact opens_raiseHere ..
    · trivial
  case indexSet =>
    split
    · rename_i v index object rest hv
      rw [hv] at hstack
      have hgrows := (onward_indexSet hm.thread.store (ValuesSound.cons.mp hstack).1 object index).grows
      split
      · exact hwithin hgrows rfl rfl rfl
      · exact opens_raiseHere ..
    · trivial
  case makeArray count =>
    split
    · exact hwithin (.of_envs_eq rfl) rfl rfl rfl
    · trivial
  -- What is left does not touch the store.
  all_goals repeat' split
  all_goals first | exact hwithin (.refl _) rfl rfl rfl | exact opens_raiseHere .. | trivial

end Machine

/-- Every step of a sound machine opens and closes scopes as on stacks. -/
theorem Machine.Sound.scopeMove {limits : Limits} {m m' : Machine} (hm : m.Sound)
    (h : step limits m = .running m') : ScopeMove m.thread.store m.frame m.callers m'.opened := by
  have hopens : (step limits m).Opens (ScopeMove m.thread.store m.frame m.callers) := by
    obtain ⟨hip, hstep⟩ | ⟨i, hi, hcanceled | ⟨steps, polls, hstep⟩⟩ := hm.step_cases limits
    · have hleaves : m.frame.Leaves := .inl hip
      rw [hstep]
      exact (Machine.left ..).opens hm.toValid (handover_of_leaves hleaves)
    · cases hnext : step limits m with
      | running m₁ =>
        rw [hnext] at hcanceled
        exact hcanceled.elim
      | done m₁ outcome => trivial
    · rw [hstep]
      exact (hm.counted steps polls).opens_exec hi
  rw [h] at hopens
  exact hopens

/-! ## Runs -/

/-- A lowered unit has consistent shapes, for exactly the addresses of its instructions. -/
theorem exists_shapes (u : CodeUnit) : ∃ shapes : Nat → Option Shape, Lowered u →
    Consistent u.code shapes ∧ ∀ ip, (shapes ip).isSome ↔ ip < u.code.size := by
  by_cases hu : Lowered u
  · obtain ⟨body, hbody⟩ := hu
    refine ⟨unitShapes u.isSub u.origin body, fun _ => ⟨hbody.consistent, fun ip => ?_⟩⟩
    simp [unitShapes, shapesOf, length_unitSites, hbody.size_code]
  · exact ⟨fun _ => none, fun h => absurd h hu⟩

/-- Code is well formed. There are shapes for the addresses of all units such that every frame of every
    run, running or stopped at a call, has the shape of its address: its next instruction is there and
    finds its operands and iterators, a scope that closes is not the frame's own, and every target of a
    verb, a landing or a dispatch point makes exactly the environment current that is open in the frame
    at the depth of the target. These environments are those that the scopes of the frame opened: a step
    handles them as stacks. No step finds too little on a stack: it aborts only for a demand that no
    machine can meet. -/
theorem frames_in_order : ∃ shapes : CodeUnit → Nat → Option Shape,
    (∀ origin module p u, compile origin module = .ok p → u ∈ p.units →
      ∀ ip, (shapes u ip).isSome ↔ ip < u.code.size) ∧
    ∀ limits t m, Thread.Arises t → Reachable limits t m →
      m.frame.InOrder (shapes m.frame.unit) m.thread.store 0 ∧
      (∀ x ∈ m.callers, ∃ i name count, x.frame.instruction? = some i ∧
        i.op = .call name count x.landing ∧
        x.frame.InOrder (shapes x.frame.unit) m.thread.store (count + 1)) ∧
      (∀ m', step limits m = .running m' →
        ScopeMove m.thread.store m.frame m.callers m'.opened) ∧
      ((step limits m).Aborted → m.frame.Demands m.thread) := by
  -- One assignment for all units at once: a unit determines its shapes, since its body does.
  obtain ⟨shapes, hshapes⟩ := Classical.axiomOfChoice exists_shapes
  refine ⟨shapes, fun origin module p u hp hu => (hshapes u (lowered_of_compile hp hu)).2,
    fun limits t m ht hm => ?_⟩
  have hsound := hm.sound ht
  have hs := hsound.thread.store.nested
  refine ⟨hsound.frame.inOrder hs hsound.shaped (hshapes _ hsound.frame.unit).1, fun x hx => ?_,
    fun m' hstep => hsound.scopeMove hstep, hsound.demands⟩
  have hwaits := hsound.callers x hx
  obtain ⟨ip, i, name, count, hip, hi, hop, -, hshaped⟩ := hwaits.call
  exact ⟨i, name, count, Frame.instruction?_eq_some.mpr ⟨ip, hip, hi⟩, hop,
    hwaits.valid.inOrder hs hshaped (hshapes _ hwaits.valid.unit).1⟩

/-- In the script that escapes from its calls, when the marker is sent: all three frames are in order. -/
theorem escape_in_order : ∃ shapes : CodeUnit → Nat → Option Shape,
    (Escape.after 16).callers.length = 2 ∧
    (Escape.after 16).frame.InOrder (shapes (Escape.after 16).frame.unit)
      (Escape.after 16).thread.store 0 ∧
    ∀ x ∈ (Escape.after 16).callers, ∃ i name count, x.frame.instruction? = some i ∧
      i.op = .call name count x.landing ∧
      x.frame.InOrder (shapes x.frame.unit) (Escape.after 16).thread.store (count + 1) := by
  obtain ⟨shapes, -, horder⟩ := frames_in_order
  obtain ⟨hframe, hcallers, -⟩ := horder Escape.limits (.new 0) (Escape.after 16) (.new 0)
    (Escape.reachable_after (by decide +kernel))
  exact ⟨shapes, by decide +kernel, hframe, hcallers⟩

end KestrelLang
