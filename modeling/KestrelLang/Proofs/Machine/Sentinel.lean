import KestrelLang.Proofs.Machine.Isolation
import KestrelLang.Proofs.Value.Leading

/-! # The sentinel of tail calls

* `Machine.Holds` — a machine leads to a value, through its frames or its globals.
* `Machine.Pure` — the machine is its own counterpart, and the sentinel has none.
* `Outcome.Stumbles` — a run failed over the slot for tail calls.
* `StartsPure` — the runs whose globals and arguments do not lead to the sentinel.
* `sentinel_never_escapes` — nothing in a run leads to the sentinel, and no run fails over the slot. -/

namespace KestrelLang

open KestrelLang.Code

/-! ## Machines that hold a value -/

/-- A frame leads to the value: through its stack, its arguments, its result, its walks, or what can be
    seen from its environment. -/
inductive Frame.Holds (s : Store) (f : Frame) (w : Value) : Prop
  | stack {v : Value} : v ∈ f.stack → v.LeadsTo s w → Holds s f w
  | args {v : Value} : v ∈ f.args → v.LeadsTo s w → Holds s f w
  | result : f.result.LeadsTo s w → Holds s f w
  | element {it : Iter} {v : Value} : it ∈ f.iters → v ∈ it.elements.toList → v.LeadsTo s w →
      Holds s f w
  | current {it : Iter} : it ∈ f.iters → it.current.LeadsTo s w → Holds s f w
  | binding : s.EnvLeadsTo f.env w → Holds s f w

/-- A machine leads to the value: through one of its frames, a parked tail call, or its globals. -/
inductive Machine.Holds (m : Machine) (w : Value) : Prop
  | frame : m.frame.Holds m.thread.store w → Holds m w
  | caller {x : Suspended} : x ∈ m.callers → x.frame.Holds m.thread.store w → Holds m w
  | target {parked : TailCall Value} : m.thread.trampoline = some parked →
      parked.target.LeadsTo m.thread.store w → Holds m w
  | argument {parked : TailCall Value} {v : Value} : m.thread.trampoline = some parked →
      v ∈ parked.args → v.LeadsTo m.thread.store w → Holds m w
  | global : m.thread.store.EnvLeadsTo globals w → Holds m w

/-- The machine is its own counterpart under a pairing in which the sentinel has none. -/
def Machine.Pure (m : Machine) : Prop := ∃ r : Pairing, ¬ r.sentinel ∧ m.Alike r m

theorem Frame.Alike.not_holds {r : Pairing} {s₁ s₂ : Store} {f g : Frame} (h : f.Alike r g)
    (hs : s₁.Alike r s₂) (hr : ¬ r.sentinel) : ¬ f.Holds s₁ .tailCalled := by
  intro hholds
  cases hholds with
  | stack hv hlead =>
    obtain ⟨v', hv'⟩ := exists_alike h.stack hv
    exact hv'.not_leadsTo hs hr hlead
  | args hv hlead =>
    obtain ⟨v', hv'⟩ := exists_alike h.args hv
    exact hv'.not_leadsTo hs hr hlead
  | result hlead => exact h.result.not_leadsTo hs hr hlead
  | element hit hv hlead =>
    obtain ⟨it', hit'⟩ := exists_alike h.iters hit
    obtain ⟨v', hv'⟩ := exists_alike hit'.elements hv
    exact hv'.not_leadsTo hs hr hlead
  | current hit hlead =>
    obtain ⟨it', hit'⟩ := exists_alike h.iters hit
    exact hit'.current.not_leadsTo hs hr hlead
  | binding hlead => exact hs.not_envLeadsTo hr h.env hlead

theorem Machine.Pure.not_holds {m : Machine} (h : m.Pure) : ¬ m.Holds .tailCalled := by
  obtain ⟨r, hr, hm⟩ := h
  have hs := hm.thread.store
  have hslot := hm.thread.slots.1
  intro hholds
  cases hholds with
  | frame hframe => exact hm.frame.not_holds hs hr hframe
  | caller hx hframe =>
    obtain ⟨x', hx'⟩ := exists_alike hm.callers hx
    exact hx'.frame.not_holds hs hr hframe
  | target hparked _ =>
    rw [hslot] at hparked
    cases hparked
  | argument hparked _ _ =>
    rw [hslot] at hparked
    cases hparked
  | global hlead => exact hs.not_envLeadsTo hr hm.thread.roots hlead

/-- A step of a machine that is its own counterpart is its own counterpart. -/
theorem Machine.Pure.step {limits : Limits} {m m' : Machine} (h : m.Pure) (hm : m.Level)
    (hstep : step limits m = .running m') : m'.Pure := by
  obtain ⟨r, hr, halike⟩ := h
  obtain ⟨r', hgrows, hnext⟩ := alike_step limits halike hm
  rw [hstep] at hnext
  cases hnext with
  | running hm' => exact ⟨r', mt hgrows.sentinel.mpr hr, hm'⟩

/-! ## Failures over the slot -/

/-- The slot for tail calls was full when a frame parked one, or empty when a frame had announced one. -/
def Outcome.Stumbles : Outcome → Prop
  | .failure f => f.root = .trampolineOccupied ∨ f.root = .plain Machine.missingTailCallText
  | _ => False

/-- The run goes on, or ended without such a failure. -/
def Next.Steady : Next → Prop
  | .running _ => True
  | .done _ outcome => ¬ outcome.Stumbles

namespace Machine

variable {m : Machine} {limits : Limits} {callers : List Suspended} {next : Next}

theorem steady_raise {failure : Failure}
    (h : ¬ (failure.root = .trampolineOccupied ∨ failure.root = .plain missingTailCallText)) :
    (m.raise callers failure).Steady := by
  unfold raise
  induction callers generalizing failure with
  | nil => exact h
  | cons x rest ih =>
    refine ih ?_
    cases failure with
    | fault f =>
      rintro (heq | heq) <;> cases heq
    | _ => exact h

theorem steady_raiseTrouble {t : Trouble} (h : t ≠ .failed missingTailCallText) :
    (m.raiseTrouble callers t).Steady := by
  cases t with
  | fault cause =>
    refine steady_raise ?_
    rintro (heq | heq) <;> cases heq
  | failed message =>
    refine steady_raise ?_
    rintro (heq | heq) <;> cases heq
    exact h rfl
  | abort => exact id

theorem steady_raiseHere {span : Span} {t : Trouble} (h : t ≠ .failed missingTailCallText) :
    (m.raiseHere span t).Steady := by
  cases t with
  | fault cause =>
    refine steady_raise ?_
    rintro (heq | heq) <;> cases heq
  | failed message =>
    refine steady_raise ?_
    rintro (heq | heq) <;> cases heq
    exact h rfl
  | abort => exact id

theorem steady_deliver (v : Value) : (m.deliver callers v).Steady := by
  cases callers with
  | nil => exact id
  | cons x rest => trivial

theorem Entered.steady {callee : Value} {args : List Value} (h : m.Entered limits callers args callee next) :
    next.Steady := by
  cases h with
  | starts => trivial
  | noCode | arity | notCallable => exact steady_raiseTrouble (by rintro ⟨⟩)
  | hollow => exact id
  | delivers => exact steady_deliver _
  | fails hresult =>
    refine steady_raiseTrouble ?_
    rintro rfl
    exact absurd (show missingTailCallText = outputLimitText from apply_trouble hresult) (by decide)

theorem Called.steady {callee : Value} {args : List Value} (h : m.Called limits callers callee args next) :
    next.Steady := by
  cases h with
  | refused => exact steady_raiseTrouble (by rintro ⟨⟩)
  | admitted _ hentered => exact hentered.steady

theorem Left.steady {v : Value} (h : m.Left limits v next) (hv : v.isTailCalled = false) : next.Steady := by
  cases h with
  | ended => exact id
  | astray htail | replaced _ htail => cases hv.symm.trans htail
  | delivers => exact steady_deliver v

/-- With the slot empty and no sentinel on the stack, no instruction fails over the slot. -/
theorem Executed.steady {i : Instruction} (h : m.Executed limits i next) (hm : m.Level)
    (hstack : ∀ v ∈ m.frame.stack, v.isTailCalled = false) (hi : m.frame.instruction? = some i) : next.Steady := by
  cases h with
  | within | dispatches => trivial
  | unbound => exact steady_raiseHere (by rintro ⟨⟩)
  | fails _ _ ht =>
    refine steady_raiseHere ?_
    rintro rfl
    exact ht
  | aborts => exact id
  | calls _ _ hcalled => exact hcalled.steady
  | returns _ hv hleft => exact hleft.steady (hstack _ hv)
  | collides =>
    refine steady_raise ?_
    rintro (heq | heq) <;> cases heq
  | signals _ _ hleft => exact hleft.steady rfl
  | occupied _ hparked => cases hm.slot.symm.trans hparked
  | parks hop _ _ hleft =>
    have hend := hm.not_ground hi (by rw [hop]; rfl)
    exact (hleft.entered hm.slot hend).steady

theorem Pure.stack {m : Machine} (h : m.Pure) : ∀ v ∈ m.frame.stack, v.isTailCalled = false := by
  intro v hv
  cases v with
  | tailCalled => exact absurd (.frame (.stack hv (.self _))) h.not_holds
  | _ => rfl

end Machine

/-- No step of a sound, level and pure machine fails over the slot. -/
theorem steady_step {limits : Limits} {m : Machine} (hm : m.Sound) (hlevel : m.Level) (hpure : m.Pure) :
    (step limits m).Steady := by
  obtain ⟨-, hstep⟩ | ⟨i, hi, hcanceled | ⟨steps, polls, hstep⟩⟩ := hm.step_cases limits
  · rw [hstep]
    exact (Machine.left ..).steady rfl
  · cases hnext : step limits m with
    | running m' => trivial
    | done m' outcome =>
      rw [hnext] at hcanceled
      cases outcome with
      | failure f => rintro (heq | heq) <;> cases hcanceled.symm.trans heq
      | _ => exact id
  · rw [hstep]
    exact (Machine.executed ..).steady (hlevel.counted steps polls) hpure.stack hi

/-! ## Runs -/

/-- The first state of a run: of the main chunk of an accepted program, or of a call of a global sub with
    arguments that do not lead to the sentinel. -/
inductive StartsPure (limits : Limits) (t : Thread) : Next → Prop
  | program {origin : String} {m : Module} {p : Program} :
    compile origin m = .ok p → StartsPure limits t (t.startProgram p)
  | call {name : String} {callee : Value} {args : List Value} :
    t.store.get? name globals = some callee →
      (∀ v ∈ args, v.Held t.store ∧ ¬ v.LeadsTo t.store .tailCalled) →
      StartsPure limits t (t.startCall limits callee args)

namespace StartsPure

variable {limits : Limits} {t : Thread} {next : Next}

theorem starts (h : StartsPure limits t next) : Starts limits t next := by
  cases h with
  | program hp => exact .program hp
  | call hname hargs => exact .call hname fun v hv => (hargs v hv).1

theorem steady (h : StartsPure limits t next) : next.Steady := by
  cases h with
  | program _ => trivial
  | call _ _ => exact (Machine.called ..).steady

theorem alike (h : StartsPure limits t next) (ht : t.Arises)
    (hglobals : ¬ t.store.EnvLeadsTo globals .tailCalled) : next.AlikeFrom t.store.clear next := by
  have hs := ht.sound.store
  have hthread : t.Alike t.store.clear t :=
    ⟨rfl, hs.alike_clear, ⟨rfl, hs.nested.nonempty, hglobals⟩, rfl, ⟨ht.atRest.slot, ht.atRest.slot⟩, rfl⟩
  cases h with
  | program _ => exact (hthread.startProgram _).now
  | call hname hargs =>
    rename_i name callee args
    have hcallee := alike_get? hs.alike_clear hthread.roots name
    rw [hname] at hcallee
    cases hcallee with
    | some hcallee =>
      exact hthread.startCall hcallee (List.forall₂_same.mpr fun v hv =>
        alike_self (hargs v hv).1.sound (hargs v hv).2)

end StartsPure

structure Machine.Orderly (m : Machine) : Prop where
  sound : m.Sound
  level : m.Level
  pure : m.Pure

theorem Reaches.orderly {limits : Limits} {m m₁ : Machine} (h : Reaches limits m m₁)
    (hm : m.Orderly) : m₁.Orderly := by
  refine h.invariant (I := fun next => ∀ m, next = .running m → m.Orderly) (fun m hm m' hstep => ?_)
    (fun m' heq => Next.running.inj heq ▸ hm) m₁ rfl
  have hm := hm m rfl
  have hsound : (KestrelLang.step limits m).Sound := sound_step hm.sound
  have hlevel : (KestrelLang.step limits m).Level := level_step hm.level
  rw [hstep] at hsound hlevel
  exact ⟨hsound, hlevel, hm.pure.step hm.level hstep⟩

theorem steady_iterate {limits : Limits} {fuel : Nat} {next : Next} {m : Machine} {outcome : Outcome}
    (hnext : ∀ m, next = .running m → m.Orderly) (hsteady : next.Steady)
    (h : iterate limits fuel next = some (m, outcome)) : ¬ outcome.Stumbles := by
  have hend := iterate_invariant (I := fun next => (∀ m, next = .running m → m.Orderly) ∧ next.Steady)
    (fun m hm => ?_) ⟨hnext, hsteady⟩ h
  · exact hend.2
  · have hm := hm.1 m rfl
    exact ⟨fun m₁ hstep => (Reaches.step hstep (.refl m₁)).orderly hm, steady_step hm.sound hm.level hm.pure⟩

namespace StartsPure

variable {limits : Limits} {t : Thread} {next : Next}

theorem orderly (h : StartsPure limits t next) (ht : t.Arises)
    (hglobals : ¬ t.store.EnvLeadsTo globals .tailCalled) {m₀ : Machine} (hnext : next = .running m₀) :
    m₀.Orderly := by
  have hsound := h.starts.sound ht.sound
  have hlevel := h.starts.level ht.atRest
  obtain ⟨r, hgrows, halike⟩ := h.alike ht hglobals
  rw [hnext] at hsound hlevel halike
  cases halike with
  | running hm => exact ⟨hsound, hlevel, r, mt hgrows.sentinel.mpr id, hm⟩

theorem report (h : StartsPure limits t next) (ht : t.Arises)
    (hglobals : ¬ t.store.EnvLeadsTo globals .tailCalled) {fuel : Nat} {x : Report}
    (hx : Thread.finish limits fuel next = some x) :
    (∀ v, x.outcome = .value v → ¬ v.LeadsTo x.thread.store .tailCalled) ∧
      ¬ x.thread.store.EnvLeadsTo globals .tailCalled ∧ ¬ x.outcome.Stumbles := by
  have halike := Thread.alike_finish limits (h.alike ht hglobals) (h.starts.level ht.atRest) fuel
  rw [hx] at halike
  cases halike with
  | some hpair =>
    obtain ⟨r, hgrows, hself⟩ := hpair
    -- The sentinel was no part of the pairing at the start, and growing adds none.
    have hr : ¬ r.sentinel := mt hgrows.sentinel.mpr id
    have hs := hself.thread.store
    refine ⟨fun v hv => ?_, hs.not_envLeadsTo hr hself.thread.roots, ?_⟩
    · have houtcome := hself.outcome
      rw [hv] at houtcome
      cases houtcome with
      | value hvalue => exact hvalue.not_leadsTo hs hr
    · obtain ⟨⟨m, outcome⟩, hm, rfl⟩ := Option.map_eq_some_iff.mp hx
      have hsteady := steady_iterate (fun m hnext => h.orderly ht hglobals hnext) h.steady hm
      cases outcome with
      | value v =>
        cases hchannel : m.thread.channel with
        | none => simp [Thread.report, hchannel, Outcome.Stumbles]
        | some marker => simp [Thread.report, hchannel, Outcome.Stumbles, Failure.root]
      | failure f => exact hsteady
      | aborted => exact id

end StartsPure

/-! ## The statement -/

/-- The sentinel never escapes. On a thread whose globals do not lead to it, take any run of an accepted
    program, or any call of a bound name with arguments that do not lead to it. No machine of the run leads
    to the sentinel, and none has a tail call parked; an instruction that parks one finds the slot empty, and
    the call that its frame belongs to takes it out again within the step. The value of the run does not lead
    to the sentinel, nor do the globals after it, and the run fails neither for a full slot nor for an
    empty one. -/
theorem sentinel_never_escapes {limits : Limits} {t : Thread} (ht : t.Arises)
    (hglobals : ¬ t.store.EnvLeadsTo globals .tailCalled) :
    (∀ next m₀ m, StartsPure limits t next → next = .running m₀ → Reaches limits m₀ m →
      ¬ m.Holds .tailCalled ∧ m.thread.trampoline = none ∧
      ∀ c, m.frame.tailCall? = some c → ∃ i, m.frame.instruction? = some i ∧
        m.exec limits i =
          { m with thread := { m.thread with trampoline := some c } }.leave limits .tailCalled ∧
        m.exec limits i = m.enter limits m.callers c.target c.args) ∧
    (∀ next fuel m outcome, StartsPure limits t next → iterate limits fuel next = some (m, outcome) →
      (∀ v, outcome = .value v → ¬ v.LeadsTo m.thread.store .tailCalled ∧ m.thread.trampoline = none) ∧
      ¬ outcome.Stumbles) ∧
    (∀ origin module p fuel x, compile origin module = .ok p → t.run limits fuel p = some x →
      (∀ v, x.outcome = .value v → ¬ v.LeadsTo x.thread.store .tailCalled) ∧
      ¬ x.thread.store.EnvLeadsTo globals .tailCalled ∧ ¬ x.outcome.Stumbles) ∧
    (∀ name args fuel x, (∀ v ∈ args, v.Held t.store ∧ ¬ v.LeadsTo t.store .tailCalled) →
      t.call limits fuel name args = some x →
      (∀ v, x.outcome = .value v → ¬ v.LeadsTo x.thread.store .tailCalled) ∧
      ¬ x.thread.store.EnvLeadsTo globals .tailCalled ∧ ¬ x.outcome.Stumbles) := by
  refine ⟨fun next m₀ m hstart hnext hreach => ?_, fun next fuel m outcome hstart h => ⟨fun v hv => ?_, ?_⟩,
    fun origin module p fuel x hp hx => (StartsPure.program hp).report ht hglobals hx,
    fun name args fuel x hargs hx => ?_⟩
  · have hm := hreach.orderly (hstart.orderly ht hglobals hnext)
    exact ⟨hm.pure.not_holds, hm.level.slot, fun c hc => Machine.exec_tailCall hm.level hc⟩
  -- The run is put beside itself under a relation that no sentinel is part of.
  · have halike := alike_iterate limits fuel (hstart.alike ht hglobals)
      (hstart.starts.level ht.atRest)
    have hlevel := level_iterate (hstart.starts.level ht.atRest) h
    rw [h] at halike
    cases halike with
    | some hpair =>
      obtain ⟨r, hgrows, hends⟩ := hpair
      have houtcome := hends.outcome
      rw [hv] at houtcome hlevel
      cases houtcome with
      | value hvalue =>
        exact ⟨hvalue.not_leadsTo hends.outside.thread.store (mt hgrows.sentinel.mpr id), hlevel.2⟩
  · exact steady_iterate (fun m hnext => hstart.orderly ht hglobals hnext) hstart.steady h
  · unfold Thread.call at hx
    split at hx
    · cases hx
      refine ⟨nofun, hglobals, ?_⟩
      rintro (heq | heq) <;> cases heq
    · exact (StartsPure.call ‹_› hargs).report ht hglobals hx

theorem new_leads_not (id : Nat) : ¬ (Thread.new id).store.EnvLeadsTo globals .tailCalled := by
  rintro ⟨i, haround, b, hb, hlead⟩
  have houtermost : i = globals := by
    clear hb
    induction haround with
    | self => rfl
    | outward _ hp ih =>
      rw [ih] at hp
      cases hp
  subst houtermost
  have hbindings : ((Thread.new id).store.env globals).bindings =
      Builtin.all.map fun b => (b.name, b.toValue) := rfl
  rw [hbindings] at hb
  obtain ⟨builtin, -, rfl⟩ := List.mem_map.mp hb
  cases hlead

/-- In the script with a tail call, the closure is about to park one, and its callee takes its place; the
    run ends with the value of that callee. -/
theorem relayed_keeps_sentinel :
    (Thread.new 0).Arises ∧ ¬ (Thread.new 0).store.EnvLeadsTo globals .tailCalled ∧
      (∃ c, (Relayed.after 3).frame.tailCall? = some c) ∧ ¬ (Relayed.after 3).Holds .tailCalled ∧
      (Relayed.after 3).thread.trampoline = none := by
  have harises : (Thread.new 0).Arises := .new 0
  have hglobals := new_leads_not 0
  have hpark : ((Relayed.after 3).frame.tailCall?).isSome := by decide +kernel
  obtain ⟨m₀, hstart, hreach⟩ := Relayed.reaches_after (n := 3) (by decide +kernel)
  obtain ⟨hholds, hslot, -⟩ := (sentinel_never_escapes harises hglobals).1 _ m₀ _
    (.program Relayed.compile_relayed) hstart hreach
  exact ⟨harises, hglobals, Option.isSome_iff_exists.mp hpark, hholds, hslot⟩

end KestrelLang
