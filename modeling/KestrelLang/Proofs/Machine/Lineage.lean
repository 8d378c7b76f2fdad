import KestrelLang.Proofs.Machine.Limits
import KestrelLang.Proofs.Value.Lineage

/-! # Where the code of machines comes from

A machine runs nothing but the units of the programs that were loaded and the closures that these make.

* `Inherits` — a property that a unit hands down to the closures it makes.
* `Frame.Stems`, `Machine.Stems`, `Thread.Stems` — all units of frames and subs have such a property.
* `stems_exec`, `stems_step` — every step keeps it so.
* `Thread.Stems.run` — so does every run of a program whose units have the property. -/

namespace KestrelLang

open KestrelLang.Code

/-- A unit with the property hands it down to the closures that it makes. -/
def Inherits (P : CodeUnit → Prop) : Prop :=
  ∀ {u v : CodeUnit} {ip : Nat} {i : Instruction}, P u → u.code[ip]? = some i → i.op = .makeSub v → P v

variable {P : CodeUnit → Prop}

/-! ## Machines -/

structure Iter.Stems (P : CodeUnit → Prop) (it : Iter) : Prop where
  elements : ValuesStem P it.elements.toList
  current : it.current.Stems P

structure Frame.Stems (P : CodeUnit → Prop) (f : Frame) : Prop where
  unit : P f.unit
  args : ValuesStem P f.args
  stack : ValuesStem P f.stack
  iters : ∀ it ∈ f.iters, it.Stems P
  result : f.result.Stems P

structure Thread.Stems (P : CodeUnit → Prop) (t : Thread) : Prop where
  store : t.store.Stems P
  trampoline : ∀ c, t.trampoline = some c → c.target.Stems P ∧ ValuesStem P c.args

structure Machine.Stems (P : CodeUnit → Prop) (m : Machine) : Prop where
  thread : m.thread.Stems P
  frame : m.frame.Stems P
  callers : ∀ x ∈ m.callers, x.frame.Stems P

/-- All units of a run that goes on, and of the thread that a run leaves, have the property. -/
def Next.Stems (P : CodeUnit → Prop) : Next → Prop
  | .running m => m.Stems P
  | .done m _ => m.thread.Stems P

theorem Frame.Stems.jump {f : Frame} (hf : f.Stems P) (s : Store) (target : JumpTarget) :
    (f.jump s target).Stems P := by
  cases target with
  | exit => exact ⟨hf.unit, hf.args, .nil, nofun, hf.result⟩
  | «to» ip scopes iters =>
    exact ⟨hf.unit, hf.args, .nil, fun it hit => hf.iters it (mem_cutIters hit), hf.result⟩

theorem Thread.Stems.withStore {t : Thread} (ht : t.Stems P) {s : Store} (hs : s.Stems P) :
    { t with store := s }.Stems P :=
  ⟨hs, ht.trampoline⟩

namespace Machine

variable {m : Machine} {limits : Limits} {callers : List Suspended} {next : Next}

theorem Stems.withStore (hm : m.Stems P) {s : Store} (hs : s.Stems P) :
    { m with thread := { m.thread with store := s } }.Stems P :=
  ⟨hm.thread.withStore hs, hm.frame, hm.callers⟩

theorem stems_raiseTrouble (ht : m.thread.Stems P) (t : Trouble) : (m.raiseTrouble callers t).Stems P := by
  cases t <;> exact ht

theorem stems_raiseHere (ht : m.thread.Stems P) (span : Span) (t : Trouble) : (m.raiseHere span t).Stems P := by
  cases t <;> exact ht

/-! ## Calls -/

theorem stems_deliver (ht : m.thread.Stems P) (hcallers : ∀ x ∈ callers, x.frame.Stems P) {v : Value}
    (hv : v.Stems P) : (m.deliver callers v).Stems P := by
  cases callers with
  | nil => exact ⟨ht.store, ht.trampoline⟩
  | cons x rest =>
    obtain ⟨hx, hrest⟩ := List.forall_mem_cons.mp hcallers
    refine ⟨⟨ht.store, ht.trampoline⟩, ?_, hrest⟩
    dsimp only
    split
    · exact hx.jump _ _
    · exact ⟨hx.unit, hx.args, ValuesStem.cons.mpr ⟨hv, hx.stack⟩, hx.iters, hx.result⟩

theorem stems_bindParams {s : Store} (hs : s.Stems P) {args : List Value} (hargs : ValuesStem P args) (env : Nat)
    (params : List String) : (bindParams s env params args).Stems P := by
  induction params generalizing s args with
  | nil => exact hs
  | cons p ps ih =>
    cases args with
    | nil => exact ih (hs.define (v := .undefined) trivial env p) .nil
    | cons v vs =>
      obtain ⟨hv, hvs⟩ := ValuesStem.cons.mp hargs
      exact ih (hs.define hv env p) hvs

theorem Entered.stems {callee : Value} {args : List Value} (h : m.Entered limits callers args callee next)
    (ht : m.thread.Stems P) (hcallers : ∀ x ∈ callers, x.frame.Stems P) (hcallee : callee.Stems P)
    (hargs : ValuesStem P args) : next.Stems P := by
  cases h with
  | @starts f _ hcode =>
    obtain ⟨u, hu, hunit⟩ := hcallee
    cases hcode.symm.trans hu
    exact ⟨ht.withStore (stems_bindParams (ht.store.extend f.closure) hargs _ _),
      ⟨hunit, hargs, .nil, nofun, trivial⟩, hcallers⟩
  | @delivers _ _ b _ hresult =>
    obtain ⟨hstore, hstems⟩ := stems_apply ht.store hargs b limits.outLimit m.out
    have hthread := ht.withStore hstore
    exact stems_deliver hthread hcallers (hstems _ hresult)
  | @fails _ _ b =>
    obtain ⟨hstore, -⟩ := stems_apply ht.store hargs b limits.outLimit m.out
    have hthread := ht.withStore hstore
    exact stems_raiseTrouble hthread _
  | hollow => exact ht
  | noCode | arity | notCallable => exact stems_raiseTrouble ht _

theorem Called.stems {callee : Value} {args : List Value} (h : m.Called limits callers callee args next)
    (ht : m.thread.Stems P) (hcallers : ∀ x ∈ callers, x.frame.Stems P) (hcallee : callee.Stems P)
    (hargs : ValuesStem P args) : next.Stems P := by
  have hthread : m.oneDeeper.thread.Stems P := ⟨ht.store, ht.trampoline⟩
  cases h with
  | refused => exact stems_raiseTrouble hthread _
  | admitted _ hentered => exact hentered.stems hthread hcallers hcallee hargs

theorem Left.stems {v : Value} (h : m.Left limits v next) (ht : m.thread.Stems P)
    (hcallers : ∀ x ∈ m.callers, x.frame.Stems P) (hv : v.Stems P) : next.Stems P := by
  cases h with
  | ended | astray => exact ht
  | replaced _ _ hparked hentered =>
    obtain ⟨htarget, hargs⟩ := ht.trampoline _ hparked
    exact hentered.stems ⟨ht.store, nofun⟩ hcallers htarget hargs
  | delivers => exact stems_deliver ht hcallers hv

theorem stems_tailCall (hm : m.Stems P) {callee : Value} (hcallee : callee.Stems P) {args : List Value}
    (hargs : ValuesStem P args) : (m.tailCall limits callee args).Stems P := by
  unfold tailCall
  cases hslot : m.thread.trampoline with
  | some parked => exact hm.thread
  | none =>
    have hthread : { m.thread with trampoline := some ⟨callee, args⟩ }.Stems P := by
      refine ⟨hm.thread.store, fun c hc => ?_⟩
      cases hc
      exact ⟨hcallee, hargs⟩
    exact (left ..).stems hthread hm.callers trivial

theorem stems_signal (hm : m.Stems P) (marker : Marker) : (m.signal limits marker).Stems P := by
  unfold signal
  split
  · exact hm.thread
  · exact (left ..).stems ⟨hm.thread.store, hm.thread.trampoline⟩ hm.callers trivial

theorem stems_dispatch (hm : m.Stems P) (table : DispatchTable) : (m.dispatch table).Stems P := by
  have hthread : ∀ channel, { m.thread with channel := channel }.Stems P :=
    fun _ => ⟨hm.thread.store, hm.thread.trampoline⟩
  unfold dispatch
  dsimp only
  split
  · exact ⟨hm.thread, ⟨hm.frame.unit, hm.frame.args, hm.frame.stack, hm.frame.iters, hm.frame.result⟩, hm.callers⟩
  · repeat' split
    all_goals first
      | exact hm.thread
      | exact ⟨hthread _, hm.frame.jump _ _, hm.callers⟩

/-! ## Instructions -/

theorem Stems.advance (hm : m.Stems P) {stack : List Value} (hstack : ValuesStem P stack) :
    (m.advance stack).Stems P :=
  ⟨hm.thread, ⟨hm.frame.unit, hm.frame.args, hstack, hm.frame.iters, hm.frame.result⟩, hm.callers⟩

theorem Stems.branchTo (hm : m.Stems P) {stack : List Value} (hstack : ValuesStem P stack) (ip : Nat) :
    (m.branchTo stack ip).Stems P :=
  ⟨hm.thread, ⟨hm.frame.unit, hm.frame.args, hstack, hm.frame.iters, hm.frame.result⟩, hm.callers⟩

theorem Stems.withResult (hm : m.Stems P) {v : Value} (hv : v.Stems P) :
    { m with frame := { m.frame with result := v } }.Stems P :=
  ⟨hm.thread, ⟨hm.frame.unit, hm.frame.args, hm.frame.stack, hm.frame.iters, hv⟩, hm.callers⟩

theorem Stems.withIters (hm : m.Stems P) {iters : List Iter} (hiters : ∀ it ∈ iters, it.Stems P) :
    { m with frame := { m.frame with iters := iters } }.Stems P :=
  ⟨hm.thread, ⟨hm.frame.unit, hm.frame.args, hm.frame.stack, hiters, hm.frame.result⟩, hm.callers⟩

theorem stems_popMany? {n : Nat} {stack args rest : List Value} (hstack : ValuesStem P stack)
    (h : popMany? n stack = some (args, rest)) : ValuesStem P args ∧ ValuesStem P rest := by
  unfold popMany? at h
  split at h
  · cases h
    exact ⟨(hstack.take n).reverse, hstack.drop n⟩
  · cases h

theorem stems_iterOf {s : Store} (hs : s.Stems P) {v : Value} (hv : v.Stems P) : (iterOf s v).Stems P := by
  unfold iterOf
  split
  · exact ⟨hs.elements _, trivial⟩
  · exact ⟨.nil, trivial⟩
  · exact ⟨.nil, trivial⟩
  · exact ⟨ValuesStem.cons.mpr ⟨hv, .nil⟩, trivial⟩

/-- Only a closure brings a new unit, and it inherits the property. -/
theorem stems_exec (hP : Inherits P) (hm : m.Stems P) {i : Instruction} (hi : m.frame.instruction? = some i) :
    (m.exec limits i).Stems P := by
  have hstack := hm.frame.stack
  have hstore := hm.thread.store
  -- What an instruction pushes it has found on the stack, in the store or in the walk, or made of scalars; a closure is
  -- the one exception. Where it finds too little the run ends, and the thread is as it was.
  cases hop : i.op <;> simp only [exec, hop]
  case const value => exact hm.advance (ValuesStem.cons.mpr ⟨value.stems_toValue, hstack⟩)
  case load name =>
    split
    · exact hm.advance (ValuesStem.cons.mpr ⟨hstore.get? ‹_›, hstack⟩)
    · exact stems_raiseHere hm.thread _ _
  case declare name | store name =>
    split
    · rename_i v rest hv
      have hhead := (ValuesStem.cons.mp (hv ▸ hstack)).1
      exact (hm.withStore (hstore.define hhead _ _)).advance (hv ▸ hstack)
    · exact hm.thread
  case dup =>
    split
    · rename_i v rest hv
      have hhead := (ValuesStem.cons.mp (hv ▸ hstack)).1
      exact hm.advance (ValuesStem.cons.mpr ⟨hhead, hstack⟩)
    · exact hm.thread
  case dup2 =>
    split
    · rename_i v w rest hv
      have hboth : ValuesStem P (v :: w :: rest) := hv ▸ hstack
      simp only [ValuesStem.cons] at hboth
      exact hm.advance (ValuesStem.cons.mpr ⟨hboth.1, ValuesStem.cons.mpr ⟨hboth.2.1, hstack⟩⟩)
    · exact hm.thread
  case pop =>
    split
    · rename_i v rest hv
      rw [hv] at hstack
      exact hm.advance (ValuesStem.cons.mp hstack).2
    · exact hm.thread
  case popResult =>
    split
    · rename_i v rest hv
      rw [hv] at hstack
      obtain ⟨hhead, hrest⟩ := ValuesStem.cons.mp hstack
      exact (hm.withResult hhead).advance hrest
    · exact hm.thread
  case result => exact hm.advance (ValuesStem.cons.mpr ⟨hm.frame.result, hstack⟩)
  case binary op =>
    split
    · rename_i right left rest hv
      rw [hv] at hstack
      simp only [ValuesStem.cons] at hstack
      obtain ⟨hstore', hvalue⟩ := stems_binaryOp hstore op left right
      have hm' := hm.withStore hstore'
      split
      · exact hm'.advance (ValuesStem.cons.mpr ⟨hvalue _ ‹_›, hstack.2.2⟩)
      · exact stems_raiseHere hm'.thread _ _
    · exact hm.thread
  case unary op =>
    split
    · rename_i v rest hv
      rw [hv] at hstack
      split
      · exact hm.advance (ValuesStem.cons.mpr ⟨stems_unaryOp ‹_›, (ValuesStem.cons.mp hstack).2⟩)
      · exact stems_raiseHere hm.thread _ _
    · exact hm.thread
  case makeArray count =>
    split
    · rename_i values rest hv
      obtain ⟨hvalues, hrest⟩ := stems_popMany? hstack hv
      have hcontents : ValuesStem P values.toArray.toList := by simpa using hvalues
      exact (hm.withStore (hstore.newArray hcontents)).advance (ValuesStem.cons.mpr ⟨trivial, hrest⟩)
    · exact hm.thread
  case indexGet =>
    split
    · rename_i index object rest hv
      rw [hv] at hstack
      simp only [ValuesStem.cons] at hstack
      split
      · exact hm.advance (ValuesStem.cons.mpr ⟨stems_indexGet hstore ‹_›, hstack.2.2⟩)
      · exact stems_raiseHere hm.thread _ _
    · exact hm.thread
  case indexSet =>
    split
    · rename_i v index object rest hv
      rw [hv] at hstack
      simp only [ValuesStem.cons] at hstack
      have hm' := hm.withStore (stems_indexSet hstore hstack.1 object index)
      split
      · exact hm'.advance (ValuesStem.cons.mpr ⟨hstack.1, hstack.2.2.2⟩)
      · exact stems_raiseHere hm'.thread _ _
    · exact hm.thread
  case branch target => exact hm.branchTo hstack target
  case branchIfFalse target | branchIfTrue target =>
    split
    · rename_i v rest hv
      rw [hv] at hstack
      have hrest := (ValuesStem.cons.mp hstack).2
      split
      · first | exact hm.advance hrest | exact hm.branchTo hrest target
      · first | exact hm.advance hrest | exact hm.branchTo hrest target
    · exact hm.thread
  case enterScope =>
    exact ⟨hm.thread.withStore (hstore.extend _),
      ⟨hm.frame.unit, hm.frame.args, hstack, hm.frame.iters, hm.frame.result⟩, hm.callers⟩
  case exitScope =>
    split
    · exact ⟨hm.thread, ⟨hm.frame.unit, hm.frame.args, hstack, hm.frame.iters, hm.frame.result⟩, hm.callers⟩
    · exact hm.thread
  case iterInit =>
    split
    · rename_i v rest hv
      rw [hv] at hstack
      obtain ⟨hhead, hrest⟩ := ValuesStem.cons.mp hstack
      exact (hm.withIters (List.forall_mem_cons.mpr ⟨stems_iterOf hstore hhead, hm.frame.iters⟩)).advance hrest
    · exact hm.thread
  case iterNext target =>
    split
    · rename_i it outer hit
      obtain ⟨hfirst, houter⟩ := List.forall_mem_cons.mp (hit ▸ hm.frame.iters)
      split
      · rename_i v hv
        have hmember : v ∈ it.elements.toList := Array.mem_toList_iff.mpr (Array.mem_of_getElem? hv)
        have hmoved : Iter.Stems P { it with next := it.next + 1, current := v } :=
          ⟨hfirst.elements, hfirst.elements v hmember⟩
        exact (hm.withIters (List.forall_mem_cons.mpr ⟨hmoved, houter⟩)).advance hstack
      · exact hm.branchTo hstack target
    · exact hm.thread
  case iterBind name =>
    split
    · rename_i it outer hit
      have hcurrent := (hm.frame.iters it (hit ▸ List.mem_cons_self)).current
      exact (hm.withStore (hstore.define hcurrent _ _)).advance hstack
    · exact hm.thread
  case iterPop =>
    split
    · rename_i it outer hit
      exact (hm.withIters (List.forall_mem_cons.mp (hit ▸ hm.frame.iters)).2).advance hstack
    · exact hm.thread
  case call name count landing =>
    split
    · rename_i args callee rest hv
      obtain ⟨hargs, hrest⟩ := stems_popMany? hstack hv
      obtain ⟨hcallee, hrest⟩ := ValuesStem.cons.mp hrest
      have hcaller : Frame.Stems P { m.frame with stack := rest } :=
        ⟨hm.frame.unit, hm.frame.args, hrest, hm.frame.iters, hm.frame.result⟩
      exact (called ..).stems hm.thread (List.forall_mem_cons.mpr ⟨hcaller, hm.callers⟩) hcallee hargs
    · exact hm.thread
  case makeSub u =>
    obtain ⟨ip, -, hcode⟩ := Frame.instruction?_eq_some.mp hi
    exact hm.advance (ValuesStem.cons.mpr ⟨⟨u, rfl, hP hm.frame.unit hcode hop⟩, hstack⟩)
  case ret =>
    split
    · rename_i v rest hv
      rw [hv] at hstack
      exact (left ..).stems hm.thread hm.callers (ValuesStem.cons.mp hstack).1
    · exact hm.thread
  case jump target => exact ⟨hm.thread, hm.frame.jump _ target, hm.callers⟩
  case signal marker => exact stems_signal hm marker
  case dispatch table => exact stems_dispatch hm table
  case tailCall count reuse =>
    split
    · split
      · rename_i callee rest hv
        rw [hv] at hstack
        exact stems_tailCall hm (ValuesStem.cons.mp hstack).1 hm.frame.args
      · exact hm.thread
    · split
      · rename_i args callee rest hv
        obtain ⟨hargs, hrest⟩ := stems_popMany? hstack hv
        exact stems_tailCall hm (ValuesStem.cons.mp hrest).1 hargs
      · exact hm.thread

end Machine

theorem stems_step (hP : Inherits P) (limits : Limits) {m : Machine} (hm : m.Stems P) : (step limits m).Stems P := by
  have h := stepped limits m
  generalize step limits m = next at h ⊢
  cases h with
  | ends => exact (Machine.left ..).stems hm.thread hm.callers trivial
  | strays | stops => exact hm.thread
  | runs hi => exact Machine.stems_exec (m := m.ticked limits.interval) hP ⟨hm.thread, hm.frame, hm.callers⟩ hi

/-! ## Threads -/

namespace Thread

variable {t : Thread} {p : Program}

theorem stems_new (id : Nat) : (Thread.new id).Stems P := by
  have hempty : Store.empty.Stems P := by
    refine ⟨fun id b hb => ?_, fun ref => ?_⟩
    · cases id <;> simp [Store.empty, Store.env] at hb
    · simp [Store.elements, Store.empty]
  have hfold : ∀ (bs : List Builtin) (s : Store), s.Stems P →
      (bs.foldl (fun s b => s.define globals b.name b.toValue) s).Stems P := by
    intro bs
    induction bs with
    | nil => exact fun s hs => hs
    | cons b bs ih => exact fun s hs => ih _ (hs.define (v := b.toValue) trivial _ _)
  refine ⟨hfold _ _ hempty, fun call hcall => ?_⟩
  cases hcall

theorem Stems.load (ht : t.Stems P) (hp : ∀ u ∈ p.units, P u) : (t.load p).Stems P := by
  have hfold : ∀ (us : List CodeUnit) (s : Store), s.Stems P → (∀ u ∈ us, P u) → (us.foldl loadSub s).Stems P := by
    intro us
    induction us with
    | nil => exact fun s hs _ => hs
    | cons u us ih =>
      intro s hs hus
      obtain ⟨hu, hus⟩ := List.forall_mem_cons.mp hus
      have hsub : (Value.sub ⟨u.name, u.params, globals, some u, u.span⟩).Stems P := ⟨u, rfl, hu⟩
      exact ih _ (hs.define hsub globals u.name) hus
  refine ht.withStore (hfold _ _ ht.store fun u hu => hp u ?_)
  simp [Program.units, hu]

theorem Stems.startProgram (ht : t.Stems P) (hp : ∀ u ∈ p.units, P u) : (t.startProgram p).Stems P := by
  have hmain : P p.main := hp _ (by simp [Program.units])
  have hframe : (Frame.start p.main globals ((t.load p).store.depth globals) []).Stems P :=
    ⟨hmain, .nil, .nil, List.forall_mem_nil _, trivial⟩
  exact ⟨ht.load hp, hframe, List.forall_mem_nil _⟩

theorem stems_report {m : Machine} (hm : m.thread.Stems P) (outcome : Outcome) :
    (report m outcome).thread.Stems P := by
  unfold report
  split
  · exact ⟨hm.store, hm.trampoline⟩
  · exact hm
  · exact ⟨hm.store, nofun⟩
  · exact ⟨hm.store, hm.trampoline⟩

theorem Stems.forward (hP : Inherits P) (ht : t.Stems P) (hp : ∀ u ∈ p.units, P u) (limits : Limits) (n : Nat) :
    ((t.startProgram p).forward limits n).Stems P :=
  Next.forward_invariant (fun _ hm => stems_step hP limits hm) (ht.startProgram hp) n

theorem Stems.run (hP : Inherits P) (ht : t.Stems P) (hp : ∀ u ∈ p.units, P u) {limits : Limits} {fuel : Nat}
    {r : Report} (hr : t.run limits fuel p = some r) : r.thread.Stems P := by
  obtain ⟨m, outcome, hend, rfl⟩ := done_of_finish hr
  have hstems := ht.forward hP hp limits fuel
  rw [hend] at hstems
  exact stems_report hstems outcome

end Thread

end KestrelLang
