import KestrelLang.Proofs.Machine.Transition
import KestrelLang.Proofs.Value.Soundness

/-! # Sound machines

* `Frame.Valid` — the unit of a frame was lowered, and the environment and the values of the frame exist.
* `Frame.Shaped` — a frame has the shape that the code demands at its address.
* `Suspended.Sound` — a frame that is stopped at a call has the shape of the call without its operands.
* `Machine.Sound` — all frames of a machine are valid and shaped.
* `sound_step` — every step of a sound machine gives a sound machine. -/

namespace KestrelLang

open KestrelLang.Code

/-! ## Frames -/

structure Iter.Sound (s : Store) (it : Iter) : Prop where
  elements : ValuesSound s it.elements.toList
  current : it.current.Sound s

structure Frame.Valid (s : Store) (f : Frame) : Prop where
  unit : Lowered f.unit
  env : f.env < s.envs.size
  base : f.baseDepth ≤ s.depth f.env
  args : ValuesSound s f.args
  stack : ValuesSound s f.stack
  iters : ∀ it ∈ f.iters, it.Sound s
  result : f.result.Sound s

def Frame.shape (s : Store) (below : Nat) (f : Frame) : Shape :=
  ⟨f.stack.length + below, s.depth f.env - f.baseDepth, f.iters.length⟩

/-- The shape at an address; without an address nothing is open. -/
def shapeAt (shapes : Nat → Option Shape) : Option Nat → Option Shape
  | none => some ⟨0, 0, 0⟩
  | some ip => shapes ip

def Frame.Shaped (s : Store) (below : Nat) (f : Frame) : Prop :=
  ∀ shapes, Consistent f.unit.code shapes → shapeAt shapes f.ip = some (f.shape s below)

namespace Frame

variable {s s' : Store} {f : Frame} {below : Nat}

theorem Valid.grow (hf : f.Valid s) (h : s.Grows s') : f.Valid s' where
  unit := hf.unit
  env := Nat.lt_of_lt_of_le hf.env h.size
  base := (h.depth hf.env).symm ▸ hf.base
  args := hf.args.grow h
  stack := hf.stack.grow h
  iters it hit := ⟨(hf.iters it hit).elements.grow h, (hf.iters it hit).current.grow h⟩
  result := hf.result.grow h

theorem Valid.shape_grow (hf : f.Valid s) (h : s.Grows s') : f.shape s' below = f.shape s below := by
  simp only [shape, h.depth hf.env]

theorem Shaped.grow (hshaped : f.Shaped s below) (hf : f.Valid s) (h : s.Grows s') :
    f.Shaped s' below := by
  intro shapes hshapes
  rw [hf.shape_grow h]
  exact hshaped shapes hshapes

theorem Shaped.at_ip (hshaped : f.Shaped s below) {ip : Nat} (hip : f.ip = some ip)
    {shapes : Nat → Option Shape} (hshapes : Consistent f.unit.code shapes) :
    shapes ip = some (f.shape s below) := by
  have hshape := hshaped shapes hshapes
  rw [hip] at hshape
  exact hshape

theorem depth_unwind (hs : s.Nested) (f : Frame) (scopes : Nat) :
    s.depth (s.unwind (f.baseDepth + scopes) f.env) =
      min (f.baseDepth + scopes) (s.depth f.env) := by
  obtain h | h := Nat.le_total (f.baseDepth + scopes) (s.depth f.env)
  · rw [hs.depth_unwind h, Nat.min_eq_left h]
  · rw [Store.unwind_of_le h, Nat.min_eq_right h]

theorem mem_cutIters {n : Nat} {it : Iter} {iters : List Iter} (h : it ∈ cutIters n iters) :
    it ∈ iters :=
  List.mem_of_mem_drop h

theorem length_cutIters {n : Nat} {iters : List Iter} (h : n ≤ iters.length) :
    (cutIters n iters).length = n := by
  simp only [cutIters, List.length_drop]
  omega

theorem Valid.jump (hf : f.Valid s) (hs : s.Nested) (target : JumpTarget) :
    (f.jump s target).Valid s := by
  have hle := fun d => Nat.lt_of_le_of_lt (s.unwind_le d f.env) hf.env
  have hbase := hf.base
  cases target with
  | exit =>
    refine ⟨hf.unit, hle _, ?_, hf.args, .nil, nofun, hf.result⟩
    have hdepth := depth_unwind hs f 0
    simp only [Frame.jump, Nat.add_zero] at hdepth ⊢
    omega
  | «to» ip scopes iters =>
    refine ⟨hf.unit, hle _, ?_, hf.args, .nil, fun it hit => hf.iters it (mem_cutIters hit), hf.result⟩
    have hdepth := depth_unwind hs f scopes
    simp only [Frame.jump]
    omega

/-- A jump to a target that is at home in the frame gives the shape of the target's address. -/
theorem Valid.shaped_jump (hf : f.Valid s) (hs : s.Nested) {target : JumpTarget}
    (htarget : ∀ shapes, Consistent f.unit.code shapes → TargetFits shapes (f.shape s below) target) :
    (f.jump s target).Shaped s 0 := by
  intro shapes hshapes
  have hbase := hf.base
  cases target with
  | exit =>
    have hdepth := depth_unwind hs f 0
    simp only [shapeAt, shape, Frame.jump, List.length_nil, Nat.add_zero, Option.some.injEq,
      Shape.mk.injEq, true_and, and_true] at hdepth ⊢
    omega
  | «to» ip scopes iters =>
    obtain ⟨hscopes, hiters, hshape⟩ := htarget shapes hshapes
    have hdepth := depth_unwind hs f scopes
    simp only [shape] at hscopes hiters
    simp only [shapeAt, hshape, shape, Frame.jump, List.length_nil, length_cutIters hiters, hdepth,
      Option.some.injEq, Shape.mk.injEq, true_and, and_true]
    omega

theorem valid_start {u : CodeUnit} {env : Nat} {args : List Value} (hu : Lowered u)
    (henv : env < s.envs.size) (hargs : ValuesSound s args) :
    (Frame.start u env (s.depth env) args).Valid s :=
  ⟨hu, henv, Nat.le_refl _, hargs, .nil, nofun, trivial⟩

theorem shaped_start {u : CodeUnit} {env : Nat} {args : List Value} :
    (Frame.start u env (s.depth env) args).Shaped s 0 := by
  intro shapes hshapes
  simpa [shapeAt, shape, Frame.start] using hshapes.start

end Frame

/-! ## Machines -/

/-- A frame stopped at a call is valid, and with the callee and the arguments back on its stack it has
    the shape of the call. -/
structure Suspended.Sound (s : Store) (x : Suspended) : Prop where
  valid : x.frame.Valid s
  call : ∃ ip i name count, x.frame.ip = some ip ∧ x.frame.unit.code[ip]? = some i ∧
    i.op = .call name count x.landing ∧ i.span = x.site ∧ x.frame.Shaped s (count + 1)

theorem Suspended.Sound.grow {s s' : Store} {x : Suspended} (hx : x.Sound s) (h : s.Grows s') :
    x.Sound s' := by
  obtain ⟨ip, i, name, count, hip, hi, hop, hsite, hshaped⟩ := hx.call
  exact ⟨hx.valid.grow h, ip, i, name, count, hip, hi, hop, hsite, hshaped.grow hx.valid h⟩

structure Thread.Sound (t : Thread) : Prop where
  store : t.store.Sound
  trampoline : ∀ c, t.trampoline = some c → c.target.Sound t.store ∧ ValuesSound t.store c.args

structure Machine.Valid (m : Machine) : Prop where
  thread : m.thread.Sound
  frame : m.frame.Valid m.thread.store
  callers : ∀ x ∈ m.callers, x.Sound m.thread.store

/-- All frames of a machine are valid and have their shapes. -/
structure Machine.Sound (m : Machine) : Prop extends m.Valid where
  shaped : m.frame.Shaped m.thread.store 0

/-- A run goes on soundly, or leaves a sound thread. -/
def Next.Sound : Next → Prop
  | .running m => m.Sound
  | .done m _ => m.thread.Sound

theorem Thread.Sound.withStore {t : Thread} (ht : t.Sound) {s : Store} (h : t.store.Onward s) :
    { t with store := s }.Sound :=
  ⟨h.sound, fun c hc => ⟨(ht.trampoline c hc).1.grow h.grows, (ht.trampoline c hc).2.grow h.grows⟩⟩

namespace Machine

variable {m : Machine} {limits : Limits} {callers : List Suspended} {next : Next}

theorem Valid.withStore (hm : m.Valid) {s : Store} (h : m.thread.store.Onward s) :
    { m with thread := { m.thread with store := s } }.Valid :=
  ⟨hm.thread.withStore h, hm.frame.grow h.grows, fun x hx => (hm.callers x hx).grow h.grows⟩

theorem sound_raiseTrouble (ht : m.thread.Sound) (t : Trouble) : (m.raiseTrouble callers t).Sound := by
  cases t <;> exact ht

theorem sound_raiseHere (ht : m.thread.Sound) (span : Span) (t : Trouble) :
    (m.raiseHere span t).Sound := by
  cases t <;> exact ht

/-! ## Calls -/

theorem sound_deliver (ht : m.thread.Sound) (hcallers : ∀ x ∈ callers, x.Sound m.thread.store)
    {v : Value} (hv : v.Sound m.thread.store) : (m.deliver callers v).Sound := by
  cases callers with
  | nil => exact ⟨ht.store, ht.trampoline⟩
  | cons x rest =>
    have hx := hcallers x List.mem_cons_self
    have hrest := fun y hy => hcallers y (List.mem_cons_of_mem _ hy)
    have hthread : { m.thread with depth := m.thread.depth - 1 }.Sound := ⟨ht.store, ht.trampoline⟩
    obtain ⟨ip, i, name, count, hip, hi, hop, -, hshaped⟩ := hx.call
    -- The call fits its address, and says what the frame finds behind it and at its landing.
    have hfits : ∀ shapes, Consistent x.frame.unit.code shapes →
        OperationFits shapes ip (x.frame.shape m.thread.store (count + 1)) i.op :=
      fun shapes hshapes => hshapes.fits (hshaped.at_ip hip hshapes) hi
    simp only [hop, OperationFits] at hfits
    simp only [deliver]
    split
    · exact ⟨⟨hthread, hx.valid.jump ht.store.nested _, hrest⟩,
        hx.valid.shaped_jump ht.store.nested fun shapes hshapes => (hfits shapes hshapes).2.2⟩
    · refine ⟨⟨hthread, ⟨hx.valid.unit, hx.valid.env, hx.valid.base, hx.valid.args,
        ValuesSound.cons.mpr ⟨hv, hx.valid.stack⟩, hx.valid.iters, hx.valid.result⟩, hrest⟩, ?_⟩
      intro shapes hshapes
      have hshape := (hfits shapes hshapes).2.1
      simp only [hip, Option.map_some, shapeAt, Frame.shape] at hshape ⊢
      rw [hshape]
      simp only [List.length_cons, Option.some.injEq, Shape.mk.injEq, and_self, and_true]
      omega

theorem onward_bindParams {s : Store} (hs : s.Sound) {args : List Value} (hargs : ValuesSound s args)
    (env : Nat) (params : List String) : s.Onward (bindParams s env params args) := by
  induction params generalizing s args with
  | nil =>
    rw [bindParams]
    exact .refl hs
  | cons p ps ih =>
    cases args with
    | nil =>
      rw [bindParams]
      have hdefine := Store.onward_define (v := .undefined) hs trivial env p
      exact hdefine.trans (ih hdefine.sound .nil)
    | cons v vs =>
      obtain ⟨hv, hvs⟩ := ValuesSound.cons.mp hargs
      rw [bindParams]
      have hdefine := Store.onward_define hs hv env p
      exact hdefine.trans (ih hdefine.sound (hvs.grow hdefine.grows))

theorem Entered.sound {callee : Value} {args : List Value} (h : m.Entered limits callers args callee next)
    (ht : m.thread.Sound) (hcallers : ∀ x ∈ callers, x.Sound m.thread.store) (hcallee : callee.Sound m.thread.store)
    (hargs : ValuesSound m.thread.store args) : next.Sound := by
  cases h with
  | @starts f u hu =>
    have hextend := Store.onward_extend ht.store hcallee.1
    have hbind := onward_bindParams hextend.sound (hargs.grow hextend.grows)
      (m.thread.store.extend f.closure).1 u.params
    -- The bindings live in the new environment, so everything from before is as sound as it was.
    have honward := hextend.trans hbind
    have henv : (m.thread.store.extend f.closure).1 < (bindParams (m.thread.store.extend f.closure).2
        (m.thread.store.extend f.closure).1 u.params args).envs.size := by
      refine Nat.lt_of_lt_of_le ?_ hbind.grows.size
      simp [Store.extend]
    exact ⟨⟨ht.withStore honward,
      Frame.valid_start (hcallee.2 u hu) henv (hargs.grow honward.grows),
      fun x hx => (hcallers x hx).grow honward.grows⟩, Frame.shaped_start⟩
  | @delivers _ _ b _ hresult =>
    obtain ⟨honward, hsound⟩ := onward_apply ht.store hargs b limits.outLimit m.out
    have hthread := ht.withStore honward
    exact sound_deliver hthread (fun x hx => (hcallers x hx).grow honward.grows) (hsound _ hresult)
  | @fails _ _ b _ _ =>
    obtain ⟨honward, -⟩ := onward_apply ht.store hargs b limits.outLimit m.out
    have hthread := ht.withStore honward
    exact sound_raiseTrouble hthread _
  | hollow => exact ht
  | noCode | arity | notCallable => exact sound_raiseTrouble ht _

theorem Called.sound {callee : Value} {args : List Value} (h : m.Called limits callers callee args next)
    (ht : m.thread.Sound) (hcallers : ∀ x ∈ callers, x.Sound m.thread.store) (hcallee : callee.Sound m.thread.store)
    (hargs : ValuesSound m.thread.store args) : next.Sound := by
  have hthread : m.oneDeeper.thread.Sound := ⟨ht.store, ht.trampoline⟩
  cases h with
  | refused => exact sound_raiseTrouble hthread _
  | admitted _ hentered => exact hentered.sound hthread hcallers hcallee hargs

/-- A frame that ends makes room for its caller, or for the callee of its tail call. -/
theorem Left.sound {v : Value} (h : m.Left limits v next) (ht : m.thread.Sound)
    (hcallers : ∀ x ∈ m.callers, x.Sound m.thread.store) (hv : v.Sound m.thread.store) : next.Sound := by
  cases h with
  | ended | astray => exact ht
  | replaced _ _ hparked hentered =>
    obtain ⟨htarget, hargs⟩ := ht.trampoline _ hparked
    exact hentered.sound ⟨ht.store, nofun⟩ hcallers htarget hargs
  | delivers => exact sound_deliver ht hcallers hv

theorem Valid.park (hm : m.Valid) {callee : Value} (hcallee : callee.Sound m.thread.store)
    {args : List Value} (hargs : ValuesSound m.thread.store args) {slot : Trampoline Value}
    (h : m.thread.trampoline.park? ⟨callee, args⟩ = some slot) :
    { m with thread := { m.thread with trampoline := slot } }.Valid := by
  refine ⟨⟨hm.thread.store, fun c hc => ?_⟩, hm.frame, hm.callers⟩
  cases ht : m.thread.trampoline <;> simp [Trampoline.park?, ht] at h
  subst h
  cases hc
  exact ⟨hcallee, hargs⟩

theorem sound_tailCall (hm : m.Valid) {callee : Value} (hcallee : callee.Sound m.thread.store)
    {args : List Value} (hargs : ValuesSound m.thread.store args) :
    (m.tailCall limits callee args).Sound := by
  unfold tailCall
  cases hpark : m.thread.trampoline.park? ⟨callee, args⟩ with
  | none => exact hm.thread
  | some slot =>
    have hparked := hm.park hcallee hargs hpark
    exact (left ..).sound hparked.thread hparked.callers trivial

theorem sound_signal (hm : m.Valid) (marker : Marker) : (m.signal limits marker).Sound := by
  unfold signal
  split
  · exact hm.thread
  · exact (left ..).sound ⟨hm.thread.store, hm.thread.trampoline⟩ hm.callers trivial

/-! ## Instructions -/

/-- The shape of the current frame, in front of an instruction that it is about to run, fits the
    instruction. -/
theorem Sound.fits (hm : m.Sound) {ip : Nat} {i : Instruction} (hip : m.frame.ip = some ip)
    (hi : m.frame.unit.code[ip]? = some i) {shapes : Nat → Option Shape}
    (hshapes : Consistent m.frame.unit.code shapes) :
    OperationFits shapes ip (m.frame.shape m.thread.store 0) i.op :=
  hshapes.fits (hm.shaped.at_ip hip hshapes) hi

def shapeWith (m : Machine) (stack : List Value) : Shape :=
  ⟨stack.length, m.thread.store.depth m.frame.env - m.frame.baseDepth, m.frame.iters.length⟩

theorem Valid.branchTo (hm : m.Valid) {stack : List Value} (hstack : ValuesSound m.thread.store stack)
    {ip : Nat} (hnext : ∀ shapes, Consistent m.frame.unit.code shapes →
      shapes ip = some (m.shapeWith stack)) : (m.branchTo stack ip).Sound := by
  refine ⟨⟨hm.thread, ⟨hm.frame.unit, hm.frame.env, hm.frame.base, hm.frame.args, hstack,
    hm.frame.iters, hm.frame.result⟩, hm.callers⟩, hnext⟩

theorem Valid.advance (hm : m.Valid) {ip : Nat} (hip : m.frame.ip = some ip) {stack : List Value}
    (hstack : ValuesSound m.thread.store stack)
    (hnext : ∀ shapes, Consistent m.frame.unit.code shapes →
      shapes (ip + 1) = some (m.shapeWith stack)) : (m.advance stack).Sound := by
  have hmoved : m.advance stack = m.branchTo stack (ip + 1) := by
    simp [Machine.advance, Machine.branchTo, hip]
  rw [hmoved]
  exact hm.branchTo hstack hnext

theorem Valid.define_advance (hm : m.Valid) {ip : Nat} (hip : m.frame.ip = some ip) {v : Value}
    (hv : v.Sound m.thread.store) (id : Nat) (name : String)
    (hnext : ∀ shapes, Consistent m.frame.unit.code shapes →
      shapes (ip + 1) = some (m.frame.shape m.thread.store 0)) :
    ({ m with thread := { m.thread with store := m.thread.store.define id name v } }.advance
      m.frame.stack).Sound := by
  have honward := Store.onward_define hm.thread.store hv id name
  refine (hm.withStore honward).advance hip (hm.frame.stack.grow honward.grows) fun shapes hshapes => ?_
  simpa [shapeWith, Frame.shape] using hnext shapes hshapes

theorem Valid.withResult (hm : m.Valid) {v : Value} (hv : v.Sound m.thread.store) :
    { m with frame := { m.frame with result := v } }.Valid :=
  ⟨hm.thread, ⟨hm.frame.unit, hm.frame.env, hm.frame.base, hm.frame.args, hm.frame.stack,
    hm.frame.iters, hv⟩, hm.callers⟩

theorem Valid.withIters (hm : m.Valid) {iters : List Iter}
    (hiters : ∀ it ∈ iters, it.Sound m.thread.store) :
    { m with frame := { m.frame with iters := iters } }.Valid :=
  ⟨hm.thread, ⟨hm.frame.unit, hm.frame.env, hm.frame.base, hm.frame.args, hm.frame.stack, hiters,
    hm.frame.result⟩, hm.callers⟩

theorem valuesSound_popMany? {s : Store} {n : Nat} {stack args rest : List Value}
    (hstack : ValuesSound s stack) (h : popMany? n stack = some (args, rest)) :
    ValuesSound s args ∧ ValuesSound s rest ∧ args.length = n ∧ stack.length = n + rest.length := by
  unfold popMany? at h
  split at h
  · cases h
    refine ⟨(hstack.take n).reverse, hstack.drop n, ?_, ?_⟩
    · simp only [List.length_reverse, List.length_take]
      omega
    · simp only [List.length_drop]
      omega
  · cases h

theorem sound_iterOf {s : Store} (hs : s.Sound) {v : Value} (hv : v.Sound s) : (iterOf s v).Sound s := by
  unfold iterOf
  split
  · exact ⟨hs.elements _, trivial⟩
  · exact ⟨.nil, trivial⟩
  · exact ⟨.nil, trivial⟩
  · exact ⟨ValuesSound.cons.mpr ⟨hv, .nil⟩, trivial⟩

theorem sound_dispatch (hm : m.Sound) {ip : Nat} {i : Instruction} {table : DispatchTable}
    (hip : m.frame.ip = some ip) (hi : m.frame.unit.code[ip]? = some i)
    (hop : i.op = .dispatch table) : (m.dispatch table).Sound := by
  have hfits := fun shapes (hshapes : Consistent _ shapes) => hm.fits hip hi hshapes
  simp only [hop] at hfits
  unfold dispatch
  split
  · exact hm.advance hip hm.frame.stack fun shapes hshapes => (hfits shapes hshapes).1
  · split
    · exact hm.thread
    · rename_i action channel _
      split
      · exact hm.thread
      · rename_i target htarget
        have htargetFits : ∀ shapes, Consistent m.frame.unit.code shapes →
            TargetFits shapes (m.frame.shape m.thread.store 0) target :=
          fun shapes hshapes => (hfits shapes hshapes).target_fits (DispatchTable.mem_targets htarget)
        have hthread : { m.thread with channel := channel }.Sound :=
          ⟨hm.thread.store, hm.thread.trampoline⟩
        dsimp only
        split <;> exact ⟨⟨hthread, hm.frame.jump hm.thread.store.nested _, hm.callers⟩,
          hm.frame.shaped_jump hm.thread.store.nested htargetFits⟩

theorem Sound.enterScope (hm : m.Sound) {ip : Nat} (hip : m.frame.ip = some ip)
    (hnext : ∀ shapes, Consistent m.frame.unit.code shapes → shapes (ip + 1) =
      some { m.shapeWith m.frame.stack with scopes := (m.shapeWith m.frame.stack).scopes + 1 }) :
    ({ m with
      thread := { m.thread with store := (m.thread.store.extend m.frame.env).2 }
      frame := { m.frame with env := (m.thread.store.extend m.frame.env).1 } }.advance
        m.frame.stack).Sound := by
  have honward := Store.onward_extend hm.thread.store hm.frame.env
  have hdepth := Store.depth_extend m.thread.store m.frame.env
  have hbase := hm.frame.base
  have hframe := hm.frame.grow honward.grows
  have hvalid : { m with
      thread := { m.thread with store := (m.thread.store.extend m.frame.env).2 }
      frame := { m.frame with env := (m.thread.store.extend m.frame.env).1 } }.Valid := by
    refine ⟨hm.thread.withStore honward, ⟨hframe.unit, ?_, ?_, hframe.args, hframe.stack,
      hframe.iters, hframe.result⟩, fun x hx => (hm.callers x hx).grow honward.grows⟩
    · simp [Store.extend]
    · dsimp only
      rw [hdepth]
      omega
  refine hvalid.advance hip hframe.stack fun shapes hshapes => ?_
  rw [hnext shapes hshapes]
  simp only [shapeWith, hdepth, Option.some.injEq, Shape.mk.injEq, true_and, and_true]
  omega

/-- The innermost scope closes. The frame's own environment stays, since a scope is open. -/
theorem Sound.exitScope (hm : m.Sound) {ip env : Nat} (hip : m.frame.ip = some ip)
    (henv : m.thread.store.parent m.frame.env = some env)
    (hnext : ∀ shapes, Consistent m.frame.unit.code shapes → 1 ≤ (m.shapeWith m.frame.stack).scopes ∧
      shapes (ip + 1) =
        some { m.shapeWith m.frame.stack with scopes := (m.shapeWith m.frame.stack).scopes - 1 }) :
    ({ m with frame := { m.frame with env := env } }.advance m.frame.stack).Sound := by
  obtain ⟨body, hbody⟩ := hm.frame.unit
  have hopen := (hnext _ hbody.consistent).1
  obtain ⟨hlt, hdepth⟩ := hm.thread.store.nested.inward henv
  simp only [shapeWith] at hopen
  have hvalid : { m with frame := { m.frame with env := env } }.Valid := by
    refine ⟨hm.thread, ⟨hm.frame.unit, Nat.lt_trans hlt hm.frame.env, ?_, hm.frame.args,
      hm.frame.stack, hm.frame.iters, hm.frame.result⟩, hm.callers⟩
    dsimp only
    omega
  refine hvalid.advance hip hm.frame.stack fun shapes hshapes => ?_
  rw [(hnext shapes hshapes).2]
  simp only [shapeWith, Option.some.injEq, Shape.mk.injEq, true_and, and_true]
  omega

/-- A frame that makes a call waits in front of the call, without its operands. -/
theorem Sound.suspend (hm : m.Sound) {ip : Nat} {i : Instruction} (hip : m.frame.ip = some ip)
    (hi : m.frame.unit.code[ip]? = some i) {name : String} {count : Nat} {landing : JumpTarget}
    (hop : i.op = .call name count landing) {args rest : List Value} {callee : Value}
    (hv : popMany? count m.frame.stack = some (args, callee :: rest)) :
    Suspended.Sound m.thread.store ⟨{ m.frame with stack := rest }, landing, i.span⟩ := by
  obtain ⟨-, hrest, -, hlength⟩ := valuesSound_popMany? hm.frame.stack hv
  refine ⟨⟨hm.frame.unit, hm.frame.env, hm.frame.base, hm.frame.args, (ValuesSound.cons.mp hrest).2,
    hm.frame.iters, hm.frame.result⟩, ip, i, name, count, hip, hi, hop, rfl, fun shapes hshapes => ?_⟩
  rw [hm.shaped shapes hshapes]
  simp only [Frame.shape, hlength, List.length_cons, Option.some.injEq, Shape.mk.injEq, and_true]
  omega

theorem sound_exec (hm : m.Sound) {ip : Nat} {i : Instruction} (hip : m.frame.ip = some ip)
    (hi : m.frame.unit.code[ip]? = some i) : (m.exec limits i).Sound := by
  have hfits : ∀ shapes, Consistent m.frame.unit.code shapes →
      OperationFits shapes ip (m.shapeWith m.frame.stack) i.op := fun _ hshapes => hm.fits hip hi hshapes
  have hstack := hm.frame.stack
  have hstore := hm.thread.store
  -- Where an instruction finds too little, the run ends, and all that is left to show is that the thread
  -- is sound; `hfits` rules these cases out, but nothing here depends on that.
  cases hop : i.op <;> simp only [hop, OperationFits] at hfits <;> simp only [exec, hop]
  case const value =>
    exact hm.advance hip (ValuesSound.cons.mpr ⟨value.sound_toValue, hstack⟩) hfits
  case load name =>
    split
    · exact hm.advance hip (ValuesSound.cons.mpr ⟨hstore.get? ‹_›, hstack⟩) hfits
    · exact sound_raiseHere hm.thread _ _
  case declare name | store name =>
    split
    · rename_i v rest hv
      rw [hv] at hstack
      exact hm.define_advance hip (ValuesSound.cons.mp hstack).1 _ _ fun shapes hshapes =>
        (hfits shapes hshapes).2
    · exact hm.thread
  case dup =>
    split
    · rename_i v rest hv
      have hhead := hv ▸ hstack
      exact hm.advance hip (ValuesSound.cons.mpr ⟨(ValuesSound.cons.mp hhead).1, hstack⟩)
        fun shapes hshapes => (hfits shapes hshapes).2
    · exact hm.thread
  case dup2 =>
    split
    · rename_i v w rest hv
      have hhead := hv ▸ hstack
      simp only [ValuesSound.cons] at hhead
      exact hm.advance hip (ValuesSound.cons.mpr ⟨hhead.1, ValuesSound.cons.mpr ⟨hhead.2.1, hstack⟩⟩)
        fun shapes hshapes => (hfits shapes hshapes).2
    · exact hm.thread
  case pop =>
    split
    · rename_i v rest hv
      rw [hv] at hstack hfits
      exact hm.advance hip (ValuesSound.cons.mp hstack).2 fun shapes hshapes => (hfits shapes hshapes).2
    · exact hm.thread
  case popResult =>
    split
    · rename_i v rest hv
      rw [hv] at hstack hfits
      obtain ⟨hhead, hrest⟩ := ValuesSound.cons.mp hstack
      exact (hm.withResult hhead).advance hip hrest fun shapes hshapes => (hfits shapes hshapes).2
    · exact hm.thread
  case result =>
    exact hm.advance hip (ValuesSound.cons.mpr ⟨hm.frame.result, hstack⟩) hfits
  case binary op =>
    split
    · rename_i right left rest hv
      rw [hv] at hstack hfits
      simp only [ValuesSound.cons] at hstack
      obtain ⟨honward, hvalue⟩ := onward_binaryOp hstore op left right
      have hvalid := hm.withStore honward
      split
      · refine hvalid.advance hip (ValuesSound.cons.mpr ⟨hvalue _ ‹_›, hstack.2.2.grow honward.grows⟩)
          fun shapes hshapes => ?_
        simpa [shapeWith, honward.grows.depth hm.frame.env] using (hfits shapes hshapes).2
      · exact sound_raiseHere hvalid.thread _ _
    · exact hm.thread
  case unary op =>
    split
    · rename_i v rest hv
      rw [hv] at hstack hfits
      obtain ⟨-, hrest⟩ := ValuesSound.cons.mp hstack
      split
      · exact hm.advance hip (ValuesSound.cons.mpr ⟨sound_unaryOp ‹_›, hrest⟩)
          fun shapes hshapes => (hfits shapes hshapes).2
      · exact sound_raiseHere hm.thread _ _
    · exact hm.thread
  case makeArray count =>
    split
    · rename_i values rest hv
      obtain ⟨hvalues, hrest, -, hlength⟩ := valuesSound_popMany? hstack hv
      have hcontents : ValuesSound m.thread.store values.toArray.toList := by simpa using hvalues
      have honward := Store.onward_newArray hstore hcontents
      refine (hm.withStore honward).advance hip
        (ValuesSound.cons.mpr ⟨trivial, hrest.grow honward.grows⟩) fun shapes hshapes => ?_
      rw [(hfits shapes hshapes).2]
      simp only [shapeWith, honward.grows.depth hm.frame.env, hlength, List.length_cons,
        Option.some.injEq, Shape.mk.injEq, and_true]
      omega
    · exact hm.thread
  case indexGet =>
    split
    · rename_i index object rest hv
      rw [hv] at hstack hfits
      simp only [ValuesSound.cons] at hstack
      split
      · exact hm.advance hip (ValuesSound.cons.mpr ⟨sound_indexGet hstore ‹_›, hstack.2.2⟩)
          fun shapes hshapes => (hfits shapes hshapes).2
      · exact sound_raiseHere hm.thread _ _
    · exact hm.thread
  case indexSet =>
    split
    · rename_i v index object rest hv
      rw [hv] at hstack hfits
      simp only [ValuesSound.cons] at hstack
      have honward := onward_indexSet hstore hstack.1 object index
      have hvalid := hm.withStore honward
      split
      · refine hvalid.advance hip
          (ValuesSound.cons.mpr ⟨hstack.1.grow honward.grows, hstack.2.2.2.grow honward.grows⟩)
          fun shapes hshapes => ?_
        simpa [shapeWith, honward.grows.depth hm.frame.env] using (hfits shapes hshapes).2
      · exact sound_raiseHere hvalid.thread _ _
    · exact hm.thread
  case branch target => exact hm.branchTo hstack hfits
  case branchIfFalse target | branchIfTrue target =>
    split
    · rename_i v rest hv
      rw [hv] at hstack hfits
      obtain ⟨-, hrest⟩ := ValuesSound.cons.mp hstack
      have hon := hm.advance hip hrest fun shapes hshapes => (hfits shapes hshapes).2.1
      have haway := hm.branchTo hrest fun shapes hshapes => (hfits shapes hshapes).2.2
      split <;> assumption
    · exact hm.thread
  case enterScope => exact hm.enterScope hip hfits
  case exitScope =>
    split
    · exact hm.exitScope hip ‹_› hfits
    · exact hm.thread
  case iterInit =>
    split
    · rename_i v rest hv
      rw [hv] at hstack hfits
      obtain ⟨hhead, hrest⟩ := ValuesSound.cons.mp hstack
      have hvalid := hm.withIters
        (List.forall_mem_cons.mpr ⟨sound_iterOf hstore hhead, hm.frame.iters⟩)
      exact hvalid.advance hip hrest fun shapes hshapes => (hfits shapes hshapes).2
    · exact hm.thread
  case iterNext target =>
    split
    · rename_i it outer hit
      have hall := hm.frame.iters
      rw [hit] at hall
      obtain ⟨hsound, houter⟩ := List.forall_mem_cons.mp hall
      split
      · rename_i v hv
        have hmember : v ∈ it.elements.toList := Array.mem_toList_iff.mpr (Array.mem_of_getElem? hv)
        have hmoved : Iter.Sound m.thread.store { it with next := it.next + 1, current := v } :=
          ⟨hsound.elements, hsound.elements v hmember⟩
        have hvalid := hm.withIters (List.forall_mem_cons.mpr ⟨hmoved, houter⟩)
        refine hvalid.advance hip hstack fun shapes hshapes => ?_
        simpa [shapeWith, hit] using (hfits shapes hshapes).2.1
      · exact hm.branchTo hstack fun shapes hshapes => (hfits shapes hshapes).2.2
    · exact hm.thread
  case iterBind name =>
    split
    · rename_i it outer hit
      have hcurrent := (hm.frame.iters it (hit ▸ List.mem_cons_self)).current
      exact hm.define_advance hip hcurrent _ _ fun shapes hshapes => (hfits shapes hshapes).2
    · exact hm.thread
  case iterPop =>
    split
    · rename_i it outer hit
      have hall := hm.frame.iters
      rw [hit] at hall
      refine (hm.withIters (List.forall_mem_cons.mp hall).2).advance hip hstack fun shapes hshapes => ?_
      simpa [shapeWith, hit] using (hfits shapes hshapes).2
    · exact hm.thread
  case call name count landing =>
    split
    · rename_i args callee rest hv
      obtain ⟨hargs, hrest, -, -⟩ := valuesSound_popMany? hstack hv
      exact (called ..).sound hm.thread
        (List.forall_mem_cons.mpr ⟨hm.suspend hip hi hop hv, hm.callers⟩)
        (ValuesSound.cons.mp hrest).1 hargs
    · exact hm.thread
  case makeSub u =>
    have hsub : (Value.sub ⟨"", u.params, m.frame.env, some u, u.span⟩).Sound m.thread.store :=
      ⟨hm.frame.env, fun v hv => by cases hv; exact hm.frame.unit.closure hi hop⟩
    exact hm.advance hip (ValuesSound.cons.mpr ⟨hsub, hstack⟩) hfits
  case ret =>
    split
    · rename_i v rest hv
      rw [hv] at hstack
      exact (left ..).sound hm.thread hm.callers (ValuesSound.cons.mp hstack).1
    · exact hm.thread
  case jump target =>
    have htarget : ∀ shapes, Consistent m.frame.unit.code shapes →
        TargetFits shapes (m.frame.shape m.thread.store 0) target := hfits
    exact ⟨⟨hm.thread, hm.frame.jump hstore.nested target, hm.callers⟩,
      hm.frame.shaped_jump hstore.nested htarget⟩
  case signal marker => exact sound_signal hm.toValid marker
  case dispatch table => exact sound_dispatch hm hip hi hop
  case tailCall count reuse =>
    split
    · split
      · rename_i callee rest hv
        rw [hv] at hstack
        exact sound_tailCall hm.toValid (ValuesSound.cons.mp hstack).1 hm.frame.args
      · exact hm.thread
    · split
      · rename_i args callee rest hv
        obtain ⟨hargs, hrest, -, -⟩ := valuesSound_popMany? hstack hv
        exact sound_tailCall hm.toValid (ValuesSound.cons.mp hrest).1 hargs
      · exact hm.thread

theorem Sound.counted (hm : m.Sound) (steps polls : Nat) :
    { m with steps := steps, polls := polls }.Sound :=
  ⟨⟨hm.thread, hm.frame, hm.callers⟩, hm.shaped⟩

end Machine

theorem sound_step {limits : Limits} {m : Machine} (hm : m.Sound) : (step limits m).Sound := by
  have h := stepped limits m
  generalize step limits m = next at h ⊢
  cases h with
  | ends => exact (Machine.left ..).sound hm.thread hm.callers trivial
  | strays | stops => exact hm.thread
  | runs hi =>
    obtain ⟨ip, hip, hcode⟩ := Frame.instruction?_eq_some.mp hi
    exact Machine.sound_exec (hm.counted _ _) hip hcode

end KestrelLang
