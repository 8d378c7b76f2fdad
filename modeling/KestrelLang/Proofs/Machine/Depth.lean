import KestrelLang.Proofs.Machine.Limits
import KestrelLang.Proofs.Machine.TailCall

/-! # The limit on the depth of calls

The depth counts the calls that are open. A limit on it refuses a call that would pass it and does nothing else,
so two runs with different limits are the same up to the first call that only the larger one admits.

* `Machine.Counted` — the depth is the number of open calls, and it is not above the peak.
* `counted_step` — every step keeps count, whichever way it leaves a frame.
* `Machine.Refused` — the machine is about to make a call that the limit does not admit.
* `refused_or_same` — a step is refused, or it does not depend on the limit.
* `depth_limit_only_guards` — a limit that is not passed changes nothing, and one that is passed ends the run. -/

namespace KestrelLang

open KestrelLang.Code

/-! ## Counting calls -/

/-- The depth is the number of open calls, and the peak is not below it. -/
structure Machine.Counted (m : Machine) : Prop where
  depth : m.thread.depth = openCalls m.base m.callers
  peak : m.thread.depth ≤ m.thread.peak

/-- A run goes on with its calls counted, or it ended with a value and no call is open. -/
def Next.Counted : Next → Prop
  | .running m => m.Counted
  | .done m (.value _) => m.thread.depth = 0
  | .done _ _ => True

namespace Machine

variable {m : Machine} {limits : Limits} {callers : List Suspended} {next : Next}

theorem counted_raiseTrouble (t : Trouble) : (m.raiseTrouble callers t).Counted := by
  cases t <;> trivial

theorem counted_raiseHere (span : Span) (t : Trouble) : (m.raiseHere span t).Counted := by
  cases t <;> trivial

theorem counted_deliver {v : Value} (hdepth : m.thread.depth = openCalls m.base callers)
    (hpeak : m.thread.depth ≤ m.thread.peak) : (m.deliver callers v).Counted := by
  cases callers with
  | nil =>
    show m.thread.depth - 1 = 0
    rw [hdepth, openCalls]
    split <;> rfl
  | cons s rest =>
    rw [openCalls_cons] at hdepth
    constructor
    · show m.thread.depth - 1 = openCalls m.base rest
      omega
    · show m.thread.depth - 1 ≤ m.thread.peak
      omega

theorem Entered.counted {callee : Value} {args : List Value} (h : m.Entered limits callers args callee next)
    (hdepth : m.thread.depth = openCalls m.base callers) (hpeak : m.thread.depth ≤ m.thread.peak) :
    next.Counted := by
  cases h with
  | starts => exact ⟨hdepth, hpeak⟩
  | noCode | arity | notCallable | fails => exact counted_raiseTrouble _
  | hollow => trivial
  | delivers => exact counted_deliver hdepth hpeak

theorem Called.counted {callee : Value} {args : List Value} (h : m.Called limits callers callee args next)
    (hdepth : m.thread.depth + 1 = openCalls m.base callers) : next.Counted := by
  cases h with
  | refused => exact counted_raiseTrouble _
  | admitted _ hentered => exact hentered.counted hdepth (Nat.le_max_right _ _)

theorem Left.counted {v : Value} (h : m.Left limits v next) (hm : m.Counted) : next.Counted := by
  cases h with
  | ended hcallers hbase =>
    show m.thread.depth = 0
    rw [hm.depth, hcallers, hbase]
    rfl
  | astray => trivial
  -- The callee of a tail call takes the place of the frame.
  | replaced _ _ _ hentered => exact hentered.counted hm.depth hm.peak
  | delivers => exact counted_deliver hm.depth hm.peak

theorem Executed.counted {i : Instruction} (h : m.Executed limits i next) (hm : m.Counted) : next.Counted := by
  cases h with
  | within | dispatches => exact ⟨hm.depth, hm.peak⟩
  | unbound | fails => exact counted_raiseHere ..
  | aborts | collides | occupied => trivial
  | calls _ _ hcalled =>
    refine hcalled.counted ?_
    rw [openCalls_cons, hm.depth]
  | returns _ _ hleft | signals _ _ hleft | parks _ _ _ hleft => exact hleft.counted ⟨hm.depth, hm.peak⟩

end Machine

theorem counted_step (limits : Limits) {m : Machine} (hm : m.Counted) : (step limits m).Counted := by
  have h := stepped limits m
  generalize step limits m = next at h ⊢
  cases h with
  | ends => exact (Machine.left ..).counted hm
  | strays | stops => trivial
  | runs => exact (Machine.executed ..).counted ⟨hm.depth, hm.peak⟩

theorem Opening.counted {t : Thread} {start : Limits → Next} (h : Opening t start) (hdepth : t.depth = 0)
    (limits : Limits) : (start limits).Counted := by
  cases h with
  | program p =>
    refine ⟨hdepth, ?_⟩
    show t.depth ≤ t.peak
    rw [hdepth]
    exact Nat.zero_le _
  | call callee args =>
    refine (Machine.called ..).counted ?_
    show t.depth + 1 = openCalls .call []
    rw [hdepth]
    rfl

/-- Whatever way frames are left, the depth is the number of open calls. -/
theorem Opening.counted_forward {t : Thread} {start : Limits → Next} (h : Opening t start) (hdepth : t.depth = 0)
    (limits : Limits) (n : Nat) : ((start limits).forward limits n).Counted :=
  Next.forward_invariant (fun _ => counted_step limits) (h.counted hdepth limits) n

/-! ## Calls that are refused -/

def Limits.atDepth (limits : Limits) (depth : Option Nat) : Limits := { limits with maxDepth := depth }

namespace Machine

variable {m : Machine} {limits : Limits} {callers : List Suspended} {c : CallRequest} {callee : Value}
  {args : List Value}

theorem call_of_admitted (h : ∀ limit, limits.maxDepth = some limit → m.thread.depth + 1 ≤ limit) :
    m.call limits callers callee args = m.oneDeeper.enter limits callers callee args := by
  unfold call
  dsimp only
  split
  · rename_i limit hlimit
    rw [if_neg (Nat.not_lt_of_le (h limit hlimit))]
    rfl
  · rfl

theorem call_of_refused {limit : Nat} (hlimit : limits.maxDepth = some limit) (h : limit < m.thread.depth + 1) :
    m.call limits callers callee args =
      m.oneDeeper.raiseTrouble callers (.fault (.depthExceeded limit)) := by
  unfold call
  simp only [hlimit, if_pos h]
  rfl

/-- A call for which there is room is made alike under both limits, and nothing in it is too deep. -/
theorem call_of_room {limit : Nat} {wider : Option Nat} (hroom : m.thread.depth + 1 ≤ limit)
    (hwider : ∀ l, wider = some l → limit < l) (limits : Limits) (callers : List Suspended) (callee : Value)
    (args : List Value) :
    m.call (limits.atDepth (some limit)) callers callee args = m.call (limits.atDepth wider) callers callee args ∧
      (m.call (limits.atDepth (some limit)) callers callee args).Shallow m.oneDeeper.thread.peak := by
  have hsmaller : m.call (limits.atDepth (some limit)) callers callee args =
      m.oneDeeper.enter (limits.atDepth (some limit)) callers callee args :=
    call_of_admitted fun l hl => Nat.le_trans hroom (Nat.le_of_eq (Option.some.inj hl))
  have hlarger : m.call (limits.atDepth wider) callers callee args =
      m.oneDeeper.enter (limits.atDepth wider) callers callee args :=
    call_of_admitted fun l hl => Nat.le_trans hroom (Nat.le_of_lt (hwider l hl))
  rw [hsmaller, hlarger]
  exact ⟨enter_congr rfl callee args, (entered ..).shallow⟩

theorem tooDeep_leaveCalls {f : Fault} (h : f.cause.kind = .callDepthExceeded) (callers : List Suspended) :
    (Outcome.failure (callers.foldl leaveCall (.fault f))).TooDeep := by
  induction callers generalizing f with
  | nil => exact decide_eq_true h
  | cons s rest ih => exact ih (by rw [cause_throughCall, h])

theorem callers_of_call (hc : m.call? = some c) : ∃ s, c.callers = s :: m.callers := by
  obtain ⟨i, -, hc⟩ := Option.bind_eq_some_iff.mp hc
  split at hc
  · split at hc
    · cases hc
      exact ⟨_, rfl⟩
    · cases hc
  · cases hc

theorem openCalls_of_call (hm : m.Counted) (hc : m.call? = some c) :
    openCalls m.base c.callers = m.thread.depth + 1 := by
  obtain ⟨s, hs⟩ := callers_of_call hc
  rw [hs, openCalls_cons, hm.depth]

theorem fetch_of_call (hc : m.call? = some c) : ∃ i, m.frame.instruction? = some i := by
  obtain ⟨i, hi, -⟩ := Option.bind_eq_some_iff.mp hc
  exact ⟨i, hi⟩

end Machine

section Steps

variable {m : Machine} {limits : Limits} {c : CallRequest}

theorem Next.Shallow.machine_peak {next : Next} {peak : Nat} (h : next.Shallow peak) :
    next.machine.thread.peak = peak := by
  cases next with
  | running m => exact h
  | done m outcome => exact h.1

theorem peak_call (m : Machine) (limits : Limits) (callers : List Suspended) (callee : Value) (args : List Value) :
    (m.call limits callers callee args).machine.thread.peak = max m.thread.peak (m.thread.depth + 1) := by
  have h := m.called limits callers callee args
  generalize m.call limits callers callee args = next at h ⊢
  cases h with
  | refused => rfl
  | admitted _ hentered => exact hentered.shallow.machine_peak

theorem peak_step (limits : Limits) (m : Machine) : m.thread.peak ≤ (step limits m).machine.thread.peak := by
  cases hc : m.call? with
  | none => exact Nat.le_of_eq (shallow_step_of_no_call limits hc).machine_peak.symm
  | some c =>
    by_cases hstopped : m.Stopped limits
    · obtain ⟨i, hi⟩ := Machine.fetch_of_call hc
      rw [Machine.step_of_stopped hi hstopped]
      exact Nat.le_refl _
    · rw [Machine.step_of_call hc hstopped, peak_call]
      exact Nat.le_max_left ..

/-- The machine makes a call on top of as many calls as the limit admits. -/
structure Machine.Refused (limits : Limits) (limit : Nat) (m : Machine) (c : CallRequest) : Prop where
  call : m.call? = some c
  depth : m.thread.depth = limit
  goes : ¬ m.Stopped limits

/-- The calls are counted, the peak is within the limit, and no call was refused. -/
structure Next.Within (limit : Nat) (next : Next) : Prop where
  counted : next.Counted
  peak : next.machine.thread.peak ≤ limit
  admitted : ∀ m outcome, next = .done m outcome → ¬ outcome.TooDeep

theorem Next.Shallow.within {next : Next} {peak limit : Nat} (h : next.Shallow peak) (hpeak : peak ≤ limit)
    (hcounted : next.Counted) : next.Within limit := by
  refine ⟨hcounted, h.machine_peak ▸ hpeak, fun m outcome hdone => ?_⟩
  rw [hdone] at h
  exact h.2

variable {limit : Nat} {wider : Option Nat}

/-- A step is refused for its depth, or it does not depend on the limit. -/
theorem refused_or_same (hwider : ∀ l, wider = some l → limit < l)
    (hm : (Next.running m).Within limit) :
    (∃ c, m.Refused limits limit c) ∨
      (step (limits.atDepth (some limit)) m = step (limits.atDepth wider) m ∧
        (step (limits.atDepth (some limit)) m).Within limit) := by
  have hcounted : m.Counted := hm.counted
  have hpeak : m.thread.peak ≤ limit := hm.peak
  have hnext := counted_step (limits.atDepth (some limit)) hcounted
  cases hc : m.call? with
  | none =>
    refine .inr ⟨?_, (shallow_step_of_no_call _ hc).within hpeak hnext⟩
    exact Machine.step_congr rfl rfl (fun _ => Iff.rfl) fun c hc' => absurd (hc.symm.trans hc') nofun
  | some c =>
    by_cases hstopped : m.Stopped limits
    · obtain ⟨i, hi⟩ := Machine.fetch_of_call hc
      have hstep : ∀ depth, step (limits.atDepth depth) m =
          (m.ticked limits.interval).raise m.callers (.during "interrupted" .canceled) := fun depth =>
        Machine.step_of_stopped hi hstopped
      refine .inr ⟨(hstep _).trans (hstep _).symm, Next.Shallow.within ?_ hpeak hnext⟩
      rw [hstep]
      exact Machine.shallow_raise (m := m.ticked limits.interval) (by rintro ⟨⟩)
    by_cases hfull : m.thread.depth = limit
    · exact .inl ⟨c, hc, hfull, hstopped⟩
    -- There is room for the call under the smaller limit, and so under the larger one.
    have hroom : m.thread.depth + 1 ≤ limit := Nat.lt_of_le_of_ne (Nat.le_trans hcounted.peak hpeak) hfull
    obtain ⟨hsame, hshallow⟩ :=
      Machine.call_of_room (m := m.ticked limits.interval) hroom hwider limits c.callers c.callee c.args
    have hsmaller : step (limits.atDepth (some limit)) m = _ := Machine.step_of_call hc hstopped
    have hlarger : step (limits.atDepth wider) m = _ := Machine.step_of_call hc hstopped
    refine .inr ⟨?_, ?_⟩
    · rw [hsmaller, hlarger]
      exact hsame
    · rw [hsmaller] at hnext ⊢
      exact hshallow.within (Nat.max_le.mpr ⟨hpeak, hroom⟩) hnext

/-- A call that is made on top of `limit` others has the depth `limit + 1`, whether it is admitted or not. -/
theorem Machine.Refused.peak (h : m.Refused limits limit c) (hpeak : m.thread.peak ≤ limit) (depth : Option Nat) :
    (step (limits.atDepth depth) m).machine.thread.peak = limit + 1 := by
  have hgoes : ¬ m.Stopped (limits.atDepth depth) := h.goes
  rw [Machine.step_of_call h.call hgoes, peak_call]
  show max m.thread.peak (m.thread.depth + 1) = limit + 1
  rw [h.depth]
  omega

theorem Machine.Refused.step_done (h : m.Refused limits limit c) :
    ∃ m' outcome, step (limits.atDepth (some limit)) m = .done m' outcome ∧ outcome.TooDeep := by
  have hgoes : ¬ m.Stopped (limits.atDepth (some limit)) := h.goes
  have hstep : step (limits.atDepth (some limit)) m =
      (m.ticked limits.interval).oneDeeper.raise c.callers (.fault (.ofCause (.depthExceeded limit))) := by
    rw [Machine.step_of_call h.call hgoes, Machine.call_of_refused rfl]
    · rfl
    · show limit < m.thread.depth + 1
      rw [h.depth]
      exact Nat.lt_succ_self limit
  exact ⟨_, _, hstep, tooDeep_leaveCalls rfl c.callers⟩

theorem Machine.Refused.step_wider (h : m.Refused limits limit c) (hwider : ∀ l, wider = some l → limit < l) :
    step (limits.atDepth wider) m =
      (m.ticked limits.interval).oneDeeper.enter (limits.atDepth wider) c.callers c.callee c.args := by
  have hgoes : ¬ m.Stopped (limits.atDepth wider) := h.goes
  rw [Machine.step_of_call h.call hgoes]
  refine Machine.call_of_admitted fun l hl => ?_
  show m.thread.depth + 1 ≤ l
  rw [h.depth]
  exact hwider l hl

end Steps

/-! ## Runs under two limits -/

section Runs

variable {limits : Limits} {limit fuel : Nat} {wider : Option Nat} {first : Next} {m : Machine} {outcome : Outcome}

theorem Opening.within {t : Thread} {start : Limits → Next} (h : Opening t start) (hdepth : t.depth = 0)
    (hpeak : t.peak = 0) (hlimit : 0 < limit) (hwider : ∀ l, wider = some l → limit < l) (limits : Limits) :
    start (limits.atDepth (some limit)) = start (limits.atDepth wider) ∧
      (start (limits.atDepth (some limit))).Within limit := by
  have hcounted := h.counted hdepth (limits.atDepth (some limit))
  cases h with
  | program p =>
    refine ⟨rfl, hcounted, ?_, fun m outcome hdone => ?_⟩
    · show t.peak ≤ limit
      rw [hpeak]
      exact Nat.zero_le limit
    · exact Next.noConfusion hdone
  | call callee args =>
    -- The first call is counted before its callee starts, and the limit is not zero.
    have hroom : t.depth + 1 ≤ limit := by
      rw [hdepth]
      exact hlimit
    obtain ⟨hsame, hshallow⟩ := Machine.call_of_room (m := t.machine .call) hroom hwider limits [] callee args
    refine ⟨hsame, hshallow.within ?_ hcounted⟩
    show max t.peak (t.depth + 1) ≤ limit
    rw [hpeak, Nat.zero_max]
    exact hroom

/-- The two runs are in the same state within the limit, or they came to a call that only one of them admits. -/
theorem within_or_refused (hwider : ∀ l, wider = some l → limit < l) (hfirst : first.Within limit) (n : Nat) :
    (first.forward (limits.atDepth (some limit)) n = first.forward (limits.atDepth wider) n ∧
      (first.forward (limits.atDepth (some limit)) n).Within limit) ∨
    ∃ k m c m' outcome, m.Refused limits limit c ∧ (Next.running m).Within limit ∧
      first.forward (limits.atDepth (some limit)) k = .running m ∧
      first.forward (limits.atDepth wider) k = .running m ∧
      step (limits.atDepth (some limit)) m = .done m' outcome ∧ outcome.TooDeep ∧
      first.forward (limits.atDepth (some limit)) n = .done m' outcome := by
  have hstep : ∀ m, (Next.running m).Within limit → (∃ c, m.Refused limits limit c) ∨
      (step (limits.atDepth (some limit)) m = step (limits.atDepth wider) m ∧
        (step (limits.atDepth (some limit)) m).Within limit) := fun m => refused_or_same hwider
  refine (Next.forward_parting hstep hfirst n).imp_right ?_
  rintro ⟨k, m, hk, hsame, hm, hwithin, c, hrefused⟩
  obtain ⟨m', outcome, hdone, hdeep⟩ := hrefused.step_done
  refine ⟨k, m, c, m', outcome, hrefused, hwithin, hm, ?_, hdone, hdeep, ?_⟩
  · rw [← hsame k (Nat.le_refl k)]
    exact hm
  · exact Next.forward_of_done ((Next.forward_succ_of_running hm).trans hdone) hk

theorem within_of_running (hfirst : first.Within limit) {n : Nat}
    (hm : first.forward (limits.atDepth (some limit)) n = .running m) : (Next.running m).Within limit := by
  have hwider : ∀ l, (none : Option Nat) = some l → limit < l := nofun
  obtain ⟨-, hwithin⟩ | ⟨k, m₁, c, m', outcome, -, -, -, -, -, -, hdone⟩ := within_or_refused hwider hfirst n
  · rw [hm] at hwithin
    exact hwithin
  · cases hm.symm.trans hdone

/-- A call that would pass the limit is not made: it is refused, or the host stops the run. -/
theorem call_within (hm : (Next.running m).Within limit) {c : CallRequest} (hc : m.call? = some c) :
    openCalls m.base c.callers ≤ limit ∨ ∃ m' outcome, step (limits.atDepth (some limit)) m = .done m' outcome ∧
      (outcome.TooDeep ∨ (Next.done m' outcome).Canceled) := by
  have hcounted : m.Counted := hm.counted
  have hdepth : m.thread.depth ≤ limit := Nat.le_trans hcounted.peak hm.peak
  rw [Machine.openCalls_of_call hcounted hc]
  by_cases hfull : m.thread.depth = limit
  · right
    by_cases hstopped : m.Stopped limits
    · obtain ⟨i, hi⟩ := Machine.fetch_of_call hc
      have hcanceled := Machine.canceled_raise (m.ticked limits.interval) m.callers "interrupted"
      exact ⟨_, _, Machine.step_of_stopped hi hstopped, .inr hcanceled⟩
    · obtain ⟨m', outcome, hdone, hdeep⟩ := Machine.Refused.step_done ⟨hc, hfull, hstopped⟩
      exact ⟨m', outcome, hdone, .inl hdeep⟩
  · left
    omega

theorem peak_forward (limits : Limits) (next : Next) {a b : Nat} (hab : a ≤ b) :
    (next.forward limits a).machine.thread.peak ≤ (next.forward limits b).machine.thread.peak := by
  rw [← Nat.add_sub_cancel' hab, Next.forward_add]
  refine Next.forward_invariant
    (P := fun later => (next.forward limits a).machine.thread.peak ≤ later.machine.thread.peak)
    (fun m h => Nat.le_trans h (peak_step limits m)) (Nat.le_refl _) _

instance : DecidablePred Outcome.TooDeep := fun outcome =>
  match outcome with
  | .failure f => inferInstanceAs (Decidable (f.isFault .callDepthExceeded = true))
  | .value _ | .aborted => .isFalse id

/-- A report has the peak of the run, says whether a call was refused, and leaves no call open. -/
theorem report_depth (m : Machine) (outcome : Outcome) :
    (Thread.report m outcome).thread.peak = m.thread.peak ∧
      ((Thread.report m outcome).outcome.TooDeep ↔ outcome.TooDeep) ∧
      ((Next.done m outcome).Counted → (Thread.report m outcome).thread.depth = 0) := by
  unfold Thread.report
  split
  · refine ⟨rfl, ⟨?_, False.elim⟩, id⟩
    exact Machine.not_tooDeep_fault (by rintro ⟨⟩)
  · exact ⟨rfl, Iff.rfl, id⟩
  · exact ⟨rfl, Iff.rfl, fun _ => rfl⟩
  · exact ⟨rfl, Iff.rfl, fun _ => rfl⟩

end Runs

/-- The limit on the depth is only a guard. In every state of every run that starts with no call open, the depth is
    the number of open calls, and the report leaves none open. With a limit, a fresh thread never has more calls
    open, nor starts a callee that would be one more. If a run under the limit ends otherwise than by a refused call,
    then under a larger limit or none it gives the same report, and its peak is within the limit. If a call was
    refused, then the peak is one above the limit, and under the larger limit the run comes to the same machine and
    starts the callee, at the depth that was refused. -/
theorem depth_limit_only_guards {t : Thread} (hdepth : t.depth = 0) {start : Limits → Next}
    (hstart : Opening t start) (limits : Limits) :
    (∀ n m, (start limits).forward limits n = .running m → m.thread.depth = openCalls m.base m.callers) ∧
    (∀ fuel r, Thread.finish limits fuel (start limits) = some r → r.thread.depth = 0) ∧
    ∀ (limit : Nat) (wider : Option Nat), t.peak = 0 → 0 < limit → (∀ l, wider = some l → limit < l) →
      let narrow := limits.atDepth (some limit)
      let wide := limits.atDepth wider
      (∀ n m, (start narrow).forward narrow n = .running m → openCalls m.base m.callers ≤ limit ∧
        ∀ c, m.call? = some c → openCalls m.base c.callers ≤ limit ∨ ∃ m' outcome,
          step narrow m = .done m' outcome ∧ (outcome.TooDeep ∨ (Next.done m' outcome).Canceled)) ∧
      ∀ fuel r, Thread.finish narrow fuel (start narrow) = some r →
        (¬ r.outcome.TooDeep → Thread.finish wide fuel (start wide) = some r ∧ r.thread.peak ≤ limit) ∧
        (r.outcome.TooDeep → r.thread.peak = limit + 1 ∧
          ∃ n m c, (start narrow).forward narrow n = .running m ∧ (start wide).forward wide n = .running m ∧
            m.call? = some c ∧ openCalls m.base c.callers = limit + 1 ∧
            step wide m = (m.ticked limits.interval).oneDeeper.enter wide c.callers c.callee c.args ∧
            (step wide m).machine.thread.peak = limit + 1 ∧
            ∀ fuel' r', Thread.finish wide fuel' (start wide) = some r' → limit + 1 ≤ r'.thread.peak) := by
  refine ⟨fun n m hm => ?_, fun fuel r hr => ?_, fun limit wider hpeak hlimit hwider => ?_⟩
  · have hcounted := hstart.counted_forward hdepth limits n
    rw [hm] at hcounted
    exact hcounted.depth
  · obtain ⟨m, outcome, hdone, rfl⟩ := Thread.done_of_finish hr
    have hcounted := hstart.counted_forward hdepth limits fuel
    rw [hdone] at hcounted
    exact (report_depth m outcome).2.2 hcounted
  obtain ⟨hsame, hfirst⟩ := hstart.within hdepth hpeak hlimit hwider limits
  dsimp only
  rw [← hsame]
  generalize start (limits.atDepth (some limit)) = first at hfirst
  refine ⟨fun n m hm => ?_, fun fuel r hr => ?_⟩
  · have hwithin := within_of_running hfirst hm
    have hcounted : m.Counted := hwithin.counted
    refine ⟨?_, fun c hc => call_within hwithin hc⟩
    rw [← hcounted.depth]
    exact Nat.le_trans hcounted.peak hwithin.peak
  obtain ⟨m, outcome, hend, rfl⟩ := Thread.done_of_finish hr
  obtain ⟨hrpeak, hrdeep, -⟩ := report_depth m outcome
  rw [hrpeak, hrdeep]
  -- Either the limit was never felt, or the run ended at the first call that only the wider limit admits.
  obtain ⟨hagree, hwithin⟩ | ⟨k, m₁, c, m', outcome', hrefused, hwithin, hm₁, hm₁', hdone, hdeep, hend'⟩ :=
    within_or_refused hwider hfirst fuel
  · rw [hend] at hagree hwithin
    refine ⟨fun _ => ⟨Thread.finish_of_done hagree.symm, hwithin.peak⟩, fun hdeep => ?_⟩
    exact absurd hdeep (hwithin.admitted m outcome rfl)
  · cases hend.symm.trans hend'
    refine ⟨fun hshallow => absurd hdeep hshallow, fun _ => ⟨?_, k, m₁, c, hm₁, hm₁', hrefused.call, ?_,
      hrefused.step_wider hwider, hrefused.peak hwithin.peak wider, fun fuel' r' hr' => ?_⟩⟩
    · have hpeak' := hrefused.peak hwithin.peak (some limit)
      rw [hdone] at hpeak'
      exact hpeak'
    · rw [Machine.openCalls_of_call hwithin.counted hrefused.call, hrefused.depth]
    · obtain ⟨m₂, outcome₂, hend₂, rfl⟩ := Thread.done_of_finish hr'
      have hgrown := peak_forward (limits.atDepth wider) first (Next.running_before_done hm₁' hend₂)
      rw [Next.forward_succ_of_running hm₁', hrefused.peak hwithin.peak wider, hend₂] at hgrown
      rw [(report_depth m₂ outcome₂).1]
      exact hgrown

/-- With room for one call, the script with a tail call is not hindered, and the script whose closure calls another
    one is stopped at the depth two. -/
theorem limit_of_one_guards :
    (∃ r, (Thread.new 0).run (Escape.limits.atDepth (some 1)) 60 Relayed.program = some r ∧
      (Thread.new 0).run (Escape.limits.atDepth none) 60 Relayed.program = some r ∧ r.thread.peak ≤ 1) ∧
    ∃ r, (Thread.new 0).run (Escape.limits.atDepth (some 1)) 60 Escape.program = some r ∧ r.outcome.TooDeep ∧
      r.thread.peak = 2 := by
  have hguards (p : Program) := (depth_limit_only_guards rfl (.program (t := .new 0) p) Escape.limits).2.2 1 none rfl
    (by decide) nofun
  have hrelayed : ((Thread.new 0).run (Escape.limits.atDepth (some 1)) 60 Relayed.program).any
      fun r => decide (¬ r.outcome.TooDeep) := by decide +kernel
  have hescape : ((Thread.new 0).run (Escape.limits.atDepth (some 1)) 60 Escape.program).any
      fun r => decide r.outcome.TooDeep := by decide +kernel
  obtain ⟨r, hr, hshallow⟩ := (Option.any_eq_true _ _).mp hrelayed
  obtain ⟨r', hr', hdeep⟩ := (Option.any_eq_true _ _).mp hescape
  obtain ⟨hwide, hpeak⟩ := ((hguards Relayed.program).2 60 r hr).1 (of_decide_eq_true hshallow)
  obtain ⟨hpeak', -⟩ := ((hguards Escape.program).2 60 r' hr').2 (of_decide_eq_true hdeep)
  exact ⟨⟨r, hr, hwide, hpeak⟩, r', hr', of_decide_eq_true hdeep, hpeak'⟩

end KestrelLang
