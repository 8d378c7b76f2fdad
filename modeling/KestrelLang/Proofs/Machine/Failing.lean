import KestrelLang.Proofs.Machine.CallSites
import KestrelLang.Proofs.Machine.Depth
import KestrelLang.Proofs.Machine.Lineage

/-! # What a machine fails with

A fault is met by an operation, or by a call whose callee does not start. The callee of a tail call starts in the
place of the frame that makes it, so its fault leaves that frame's callers only.

* `Value.Rejects`, `Value.RejectsCall` — a callee does not start, or there is no room for the call.
* `Next.FailsWith` — a state is the end of a run that failed with a fault.
* `Machine.FaultOf` — what a machine fails with in its next step, and which sites the fault leaves.
* `step_fault` — a step fails with nothing else. -/

namespace KestrelLang

open KestrelLang.Code

/-! ## What fails -/

/-- The callee does not start: it is not callable, or it is a builtin that fails. -/
inductive Value.Rejects (limits : Limits) (s : Store) (out : String) (callee : Value) (args : List Value) :
    FaultCause → Prop
  | notCallable : (∀ f, callee ≠ .sub f) → (∀ name arity impl, callee ≠ .native name arity impl) →
    Rejects limits s out callee args (.notCallable callee.kindText)
  | arity {name : String} {arity : Int} {impl : Option Builtin} : callee = .native name arity impl →
    0 ≤ arity → (args.length : Int) ≠ arity → Rejects limits s out callee args (.arity name arity args.length)
  | builtin {name : String} {arity : Int} {b : Builtin} {cause : FaultCause} : callee = .native name arity (some b) →
    (b.apply limits.outLimit s out args).result = .error (.fault cause) → Rejects limits s out callee args cause

/-- The call fails: it is one too many, or its callee does not start. -/
inductive Value.RejectsCall (limits : Limits) (t : Thread) (out : String) (callee : Value) (args : List Value) :
    FaultCause → Prop
  | tooDeep {limit : Nat} : limits.maxDepth = some limit → limit < t.depth + 1 →
    RejectsCall limits t out callee args (.depthExceeded limit)
  | callee {cause : FaultCause} : callee.Rejects limits t.store out args cause →
    RejectsCall limits t out callee args cause

/-- The state is the end of a run that failed with the fault. -/
def Next.FailsWith (next : Next) (f : Fault) : Prop := ∃ m, next = .done m (.failure (.fault f))

namespace Machine

variable {P : CodeUnit → Prop} {m : Machine} {limits : Limits} {callers : List Suspended} {f : Fault}
  {next : Next}

theorem not_failsWith_running : ¬ (Next.running m).FailsWith f := by
  rintro ⟨m', hend⟩
  cases hend

theorem not_failsWith_value {v : Value} : ¬ (Next.done m (.value v)).FailsWith f := by
  rintro ⟨m', hend⟩
  cases hend

theorem not_failsWith_aborted : ¬ (Next.done m .aborted).FailsWith f := by
  rintro ⟨m', hend⟩
  cases hend

theorem not_failsWith_raise {failure : Failure} (h : ∀ f, failure ≠ .fault f) :
    ¬ (m.raise callers failure).FailsWith f := by
  rintro ⟨m', hend⟩
  rw [raise, leaveCalls_of_not_fault h] at hend
  cases hend
  exact h f rfl

theorem failsWith_raiseTrouble {t : Trouble} (h : (m.raiseTrouble callers t).FailsWith f) :
    ∃ cause, t = .fault cause ∧ f = .unwound cause (callers.map Suspended.callSite) := by
  cases t with
  | fault cause =>
    obtain ⟨m', hend⟩ := h
    rw [raiseTrouble, raise, leaveCalls_fault] at hend
    cases hend
    exact ⟨cause, rfl, rfl⟩
  | failed message => exact absurd h (not_failsWith_raise (by simp))
  | abort => exact absurd h not_failsWith_aborted

theorem failsWith_raiseHere {span : Span} {t : Trouble} (h : (m.raiseHere span t).FailsWith f) :
    ∃ cause, t = .fault cause ∧
      f = .unwound cause (⟨m.frame.unit.origin, span⟩ :: m.callers.map Suspended.callSite) := by
  cases t with
  | fault cause =>
    obtain ⟨m', hend⟩ := h
    rw [raiseHere, raise, leaveCalls_fault] at hend
    cases hend
    refine ⟨cause, rfl, ?_⟩
    rw [Fault.unwound, List.foldl_cons, Fault.throughCall_ofCause]
  | failed message => exact absurd h (not_failsWith_raise (by simp))
  | abort => exact absurd h not_failsWith_aborted

theorem not_failsWith_deliver (v : Value) : ¬ (m.deliver callers v).FailsWith f := by
  cases callers with
  | nil => exact not_failsWith_value
  | cons s rest => exact not_failsWith_running

/-- A callee whose subs all have code fails only if it does not start. -/
theorem Entered.failsWith {callee : Value} {args : List Value} (h : m.Entered limits callers args callee next)
    (hcallee : callee.Stems P) (hfails : next.FailsWith f) :
    ∃ cause, callee.Rejects limits m.thread.store m.out args cause ∧
      f = .unwound cause (callers.map Suspended.callSite) := by
  cases h with
  | starts => exact absurd hfails not_failsWith_running
  | noCode hnone =>
    obtain ⟨u, hu, -⟩ := hcallee
    cases hnone.symm.trans hu
  | arity harity hlength =>
    obtain ⟨cause, hcause, hf⟩ := failsWith_raiseTrouble hfails
    cases hcause
    exact ⟨_, .arity rfl harity hlength, hf⟩
  | hollow => exact absurd hfails not_failsWith_aborted
  | delivers => exact absurd hfails (not_failsWith_deliver _)
  | fails hresult =>
    obtain ⟨cause, rfl, hf⟩ := failsWith_raiseTrouble hfails
    exact ⟨cause, .builtin rfl hresult, hf⟩
  | notCallable hsub hnative =>
    obtain ⟨cause, hcause, hf⟩ := failsWith_raiseTrouble hfails
    cases hcause
    exact ⟨_, .notCallable hsub hnative, hf⟩

theorem Called.failsWith {callee : Value} {args : List Value} (h : m.Called limits callers callee args next)
    (hcallee : callee.Stems P) (hfails : next.FailsWith f) :
    ∃ cause, callee.RejectsCall limits m.thread m.out args cause ∧
      f = .unwound cause (callers.map Suspended.callSite) := by
  cases h with
  | refused hlimit hdeep =>
    obtain ⟨cause, hcause, hf⟩ := failsWith_raiseTrouble hfails
    cases hcause
    exact ⟨_, .tooDeep hlimit hdeep, hf⟩
  | admitted _ hentered =>
    obtain ⟨cause, hrejects, hf⟩ := hentered.failsWith hcallee hfails
    exact ⟨cause, .callee hrejects, hf⟩

theorem Left.not_failsWith {v : Value} (h : m.Left limits v next) (hslot : m.thread.trampoline = none) :
    ¬ next.FailsWith f := by
  cases h with
  | ended => exact not_failsWith_value
  | astray => exact not_failsWith_raise (by simp)
  | replaced _ _ hparked => cases hslot.symm.trans hparked
  | delivers => exact not_failsWith_deliver _

theorem stems_tailCall? {frame : Frame} (hframe : frame.Stems P) {c : TailCall Value}
    (hc : frame.tailCall? = some c) : c.target.Stems P := by
  obtain ⟨i, -, hc⟩ := Option.bind_eq_some_iff.mp hc
  have hstack := hframe.stack
  repeat' split at hc
  · obtain ⟨callee, hcallee, rfl⟩ := Option.map_eq_some_iff.mp hc
    obtain ⟨rest, hrest⟩ := List.head?_eq_some_iff.mp hcallee
    rw [hrest] at hstack
    exact (ValuesStem.cons.mp hstack).1
  · cases hc
    exact (ValuesStem.cons.mp (stems_popMany? hstack ‹_›).2).1
  · cases hc
  · cases hc

/-! ## Steps that fail -/

/-- What a machine fails with in its next step, and the sites that the fault leaves. -/
inductive FaultOf (limits : Limits) (m : Machine) (f : Fault) : Prop
  | operation {i : Instruction} {cause : FaultCause} : m.frame.instruction? = some i →
    m.frame.Meets m.thread.store i.op cause →
      f = .unwound cause (⟨m.frame.unit.origin, i.span⟩ :: m.callers.map Suspended.callSite) → FaultOf limits m f
  | call {c : CallRequest} {cause : FaultCause} : m.call? = some c →
    c.callee.RejectsCall limits m.thread m.out c.args cause →
      f = .unwound cause (c.callers.map Suspended.callSite) → FaultOf limits m f
  | tailCall {c : TailCall Value} {cause : FaultCause} : m.frame.tailCall? = some c →
    c.target.Rejects limits m.thread.store m.out c.args cause →
      f = .unwound cause (m.callers.map Suspended.callSite) → FaultOf limits m f

/-- An instruction that fails meets the fault itself, or its callee does not start. -/
theorem Executed.faultOf {i : Instruction} (h : m.Executed limits i next) (hm : m.Level) (hstems : m.Stems P)
    (hi : m.frame.instruction? = some i) (hfails : next.FailsWith f) : m.FaultOf limits f := by
  cases h with
  | within | dispatches => exact absurd hfails not_failsWith_running
  | unbound hop hunbound =>
    obtain ⟨cause, hcause, hf⟩ := failsWith_raiseHere hfails
    cases hcause
    exact .operation hi (hop ▸ .load hunbound) hf
  | fails _ _ _ hmeets =>
    obtain ⟨cause, hcause, hf⟩ := failsWith_raiseHere hfails
    exact .operation hi (hmeets cause hcause) hf
  | aborts => exact absurd hfails not_failsWith_aborted
  | calls hop hpop hcalled =>
    have hcallee := (ValuesStem.cons.mp (stems_popMany? hstems.frame.stack hpop).2).1
    obtain ⟨cause, hrejects, hf⟩ := hcalled.failsWith hcallee hfails
    exact .call (call?_of_fetch hi hop hpop) hrejects hf
  | returns _ _ hleft => exact absurd hfails (hleft.not_failsWith hm.slot)
  | signals _ _ hleft => exact absurd hfails (hleft.not_failsWith hm.slot)
  | collides | occupied => exact absurd hfails (not_failsWith_raise (by simp))
  | parks hop hparks _ hleft =>
    -- The callee of a tail call starts in place of the frame, which is not the main chunk.
    have hend := hm.not_ground hi (by rw [hop]; rfl)
    have hc := hparks hi
    obtain ⟨cause, hrejects, hf⟩ := (hleft.entered hm.slot hend).failsWith (stems_tailCall? hstems.frame hc) hfails
    exact .tailCall hc hrejects hf

end Machine

theorem step_fault {P : CodeUnit → Prop} {limits : Limits} {m : Machine} {f : Fault} (hm : m.Level)
    (hstems : m.Stems P) (hfails : (step limits m).FailsWith f) : ¬ m.Stopped limits ∧ m.FaultOf limits f := by
  have h := stepped limits m
  generalize step limits m = next at h hfails
  cases h with
  | ends => exact absurd hfails ((Machine.left ..).not_failsWith hm.slot)
  | strays | stops => exact absurd hfails (Machine.not_failsWith_raise (by simp))
  | runs hi hgoes =>
    have hticked : (m.ticked limits.interval).FaultOf limits f :=
      (Machine.executed ..).faultOf ⟨hm.depth, hm.slot, hm.ground⟩ ⟨hstems.thread, hstems.frame, hstems.callers⟩ hi
        hfails
    refine ⟨hgoes, ?_⟩
    cases hticked with
    | operation hfetched hmeets hf => exact .operation hfetched hmeets hf
    | call hcall hrejects hf => exact .call hcall hrejects hf
    | tailCall htail hrejects hf => exact .tailCall htail hrejects hf

end KestrelLang
