import KestrelLang.Proofs.Machine.Precedence

/-! # Limits and the steps they bear on

Two runs that differ in their limits go the same way until a step reads the limit in which they differ.

* `exec_congr` — only a call reads the limit on the depth, and no instruction reads the wish to stop.
* `step_congr` — two steps are the same that are stopped alike and admit the same call.
* `Next.forward` — the state after some number of steps, or the end of the run.
* `forward_parting` — two runs are in the same state, or one of them was stopped on the way.
* `Opening` — the ways in which hosts start runs. -/

namespace KestrelLang

open KestrelLang.Code

/-! ## What instructions read -/

namespace Machine

variable {m n : Machine} {limits limits' : Limits} {callers : List Suspended} {i : Instruction}
  {c : CallRequest}

theorem enter_congr (hout : limits.outLimit = limits'.outLimit) (callee : Value) (args : List Value) :
    m.enter limits callers callee args = m.enter limits' callers callee args := by
  unfold enter
  rw [hout]

theorem leave_congr (hout : limits.outLimit = limits'.outLimit) (v : Value) :
    m.leave limits v = m.leave limits' v := by
  unfold leave
  simp only [enter_congr hout]

theorem call_congr (hout : limits.outLimit = limits'.outLimit) (hdepth : limits.maxDepth = limits'.maxDepth)
    (callee : Value) (args : List Value) :
    m.call limits callers callee args = m.call limits' callers callee args := by
  unfold call
  simp only [enter_congr hout, hdepth]

theorem exec_of_call (hi : m.frame.instruction? = some i) (hc : m.call? = some c) (limits : Limits) :
    m.exec limits i = m.call limits c.callers c.callee c.args := by
  rw [call?, hi, Option.bind_some] at hc
  cases hop : i.op <;> simp only [hop] at hc
  case call name count landing =>
    simp only [exec, hop]
    generalize popMany? count m.frame.stack = popped at hc ⊢
    rcases popped with _ | ⟨args, _ | ⟨callee, rest⟩⟩ <;> cases hc
    rfl
  all_goals cases hc

/-- The limits of two runs matter to an instruction only by the text that may be written, and to a call. -/
theorem exec_congr (hout : limits.outLimit = limits'.outLimit) (hi : m.frame.instruction? = some i)
    (hcall : ∀ c, m.call? = some c →
      m.call limits c.callers c.callee c.args = m.call limits' c.callers c.callee c.args) :
    m.exec limits i = m.exec limits' i := by
  cases hc : m.call? with
  | some c => rw [exec_of_call hi hc, exec_of_call hi hc, hcall c hc]
  | none =>
    -- Frames are left by three instructions, and a tail call has its callee entered there.
    rw [call?, hi, Option.bind_some] at hc
    cases hop : i.op <;> simp only [hop] at hc <;> simp only [exec, hop]
    case call name count landing =>
      generalize popMany? count m.frame.stack = popped at hc ⊢
      rcases popped with _ | ⟨args, _ | ⟨callee, rest⟩⟩
      · rfl
      · rfl
      · cases hc
    case ret => simp only [leave_congr hout]
    case signal marker => simp only [signal, leave_congr hout]
    case tailCall count reuse => simp only [tailCall, leave_congr hout]

end Machine

/-! ## What steps read -/

namespace Machine

variable {m : Machine} {limits : Limits} {i : Instruction}

theorem step_of_no_fetch (hi : m.frame.instruction? = none) (limits : Limits) :
    (m.frame.ip = none ∧ step limits m = m.leave limits .undefined) ∨
      ∃ failure, ∀ limits', step limits' m = m.raise m.callers failure := by
  cases hip : m.frame.ip with
  | none => exact .inl ⟨rfl, by simp only [step, hip]⟩
  | some ip =>
    have hcode : m.frame.unit.code[ip]? = none := by simpa [Frame.instruction?, hip] using hi
    exact .inr ⟨_, fun limits' => by simp only [step, hip, hcode]; rfl⟩

theorem step_of_call {c : CallRequest} (hc : m.call? = some c) (h : ¬ m.Stopped limits) :
    step limits m = (m.ticked limits.interval).call limits c.callers c.callee c.args := by
  obtain ⟨i, hi, -⟩ := Option.bind_eq_some_iff.mp hc
  rw [step_of_fetch hi h]
  exact exec_of_call (m := m.ticked limits.interval) hi hc limits

/-- Two limits that stop the same instruction and let the same text pass matter only to a call. -/
theorem step_congr {limits' : Limits} (hinterval : limits.interval = limits'.interval)
    (hout : limits.outLimit = limits'.outLimit)
    (hstop : m.frame.instruction?.isSome → (m.Stopped limits ↔ m.Stopped limits'))
    (hcall : ∀ c, m.call? = some c → ¬ m.Stopped limits →
      (m.ticked limits.interval).call limits c.callers c.callee c.args =
        (m.ticked limits.interval).call limits' c.callers c.callee c.args) :
    step limits m = step limits' m := by
  cases hi : m.frame.instruction? with
  | none =>
    obtain ⟨hip, hstep⟩ | ⟨failure, hstep⟩ := step_of_no_fetch hi limits
    · rw [hstep, leave_congr hout]
      simp only [step, hip]
    · rw [hstep, hstep]
  | some i =>
    have hstop := hstop (Option.isSome_iff_exists.mpr ⟨i, hi⟩)
    by_cases hstopped : m.Stopped limits
    · rw [step_of_stopped hi hstopped, step_of_stopped hi (hstop.mp hstopped), hinterval]
    · rw [step_of_fetch hi hstopped, step_of_fetch hi fun h => hstopped (hstop.mpr h), ← hinterval]
      exact exec_congr hout hi fun c hc => hcall c hc hstopped

end Machine

/-! ## Runs -/

/-- The state after `n` steps; a run that has ended stays at its end. -/
def Next.forward (limits : Limits) : (n : Nat) → Next → Next
  | 0, next => next
  | _ + 1, .done m outcome => .done m outcome
  | n + 1, .running m => (step limits m).forward limits n

def Next.end? : Next → Option (Machine × Outcome)
  | .running _ => none
  | .done m outcome => some (m, outcome)

namespace Next

variable {limits limits' : Limits} {next : Next}

theorem forward_done (limits : Limits) (n : Nat) (m : Machine) (outcome : Outcome) :
    (Next.done m outcome).forward limits n = .done m outcome := by
  cases n <;> rfl

theorem forward_add (limits : Limits) (a b : Nat) (next : Next) :
    next.forward limits (a + b) = (next.forward limits a).forward limits b := by
  induction a generalizing next with
  | zero => rw [Nat.zero_add, forward]
  | succ a ih =>
    cases next with
    | done m outcome => simp only [forward_done]
    | running m =>
      rw [Nat.succ_add]
      exact ih (step limits m)

theorem forward_succ_of_running {n : Nat} {m : Machine} (h : next.forward limits n = .running m) :
    next.forward limits (n + 1) = step limits m := by
  rw [forward_add, h]
  rfl

theorem forward_of_done {a b : Nat} {m : Machine} {outcome : Outcome} (h : next.forward limits a = .done m outcome)
    (hab : a ≤ b) : next.forward limits b = .done m outcome := by
  rw [← Nat.add_sub_cancel' hab, forward_add, h, forward_done]

theorem running_before_done {a b : Nat} {m m' : Machine} {outcome : Outcome}
    (h : next.forward limits a = .running m) (h' : next.forward limits b = .done m' outcome) : a < b := by
  refine Nat.lt_of_not_le fun hle => ?_
  cases (forward_of_done h' hle).symm.trans h

theorem iterate_eq (limits : Limits) (fuel : Nat) (next : Next) :
    iterate limits fuel next = (next.forward limits fuel).end? := by
  induction fuel generalizing next with
  | zero => cases next <;> rfl
  | succ fuel ih =>
    cases next with
    | done m outcome => rfl
    | running m => exact ih (step limits m)

theorem forward_invariant {P : Next → Prop} (hstep : ∀ m, P (.running m) → P (step limits m)) (hnext : P next)
    (n : Nat) : P (next.forward limits n) := by
  induction n generalizing next with
  | zero => exact hnext
  | succ n ih =>
    cases next with
    | done m outcome => exact hnext
    | running m => exact ih (hstep m hnext)

/-- Two runs whose steps are the same, unless one of them is stopped: they are in the same state, or came
    together to a machine that is stopped. -/
theorem forward_parting {P : Next → Prop} {Stop : Machine → Prop}
    (hstep : ∀ m, P (.running m) → Stop m ∨ (step limits m = step limits' m ∧ P (step limits m)))
    (hnext : P next) (n : Nat) :
    (next.forward limits n = next.forward limits' n ∧ P (next.forward limits n)) ∨
      ∃ k m, k < n ∧ (∀ j ≤ k, next.forward limits j = next.forward limits' j) ∧
        next.forward limits k = .running m ∧ P (.running m) ∧ Stop m := by
  induction n generalizing next with
  | zero => exact .inl ⟨rfl, hnext⟩
  | succ n ih =>
    cases next with
    | done m outcome => exact .inl ⟨rfl, hnext⟩
    | running m =>
      obtain hstop | ⟨hsame, hkept⟩ := hstep m hnext
      · refine .inr ⟨0, m, Nat.succ_pos n, fun j hj => ?_, rfl, hnext, hstop⟩
        obtain rfl : j = 0 := Nat.le_zero.mp hj
        rfl
      -- After one common step, both runs go on from the same state, each under its own limits.
      · obtain ⟨heq, hP⟩ | ⟨k, m', hk, heq, hm', hP, hstop⟩ := ih hkept
        · refine .inl ⟨?_, hP⟩
          rw [hsame] at heq
          simpa only [forward, hsame] using heq
        · refine .inr ⟨k + 1, m', Nat.succ_lt_succ hk, fun j hj => ?_, hm', hP, hstop⟩
          cases j with
          | zero => rfl
          | succ j =>
            have hj := heq j (Nat.le_of_succ_le_succ hj)
            rw [hsame] at hj
            simpa only [forward, hsame] using hj

end Next

namespace Thread

variable {limits : Limits} {fuel : Nat} {next : Next}

theorem finish_of_done {m : Machine} {outcome : Outcome} (h : next.forward limits fuel = .done m outcome) :
    finish limits fuel next = some (report m outcome) := by
  rw [finish, Next.iterate_eq, h]
  rfl

theorem done_of_finish {r : Report} (h : finish limits fuel next = some r) :
    ∃ m outcome, next.forward limits fuel = .done m outcome ∧ r = report m outcome := by
  obtain ⟨⟨m, outcome⟩, hend, rfl⟩ := Option.map_eq_some_iff.mp h
  rw [Next.iterate_eq] at hend
  cases hnext : next.forward limits fuel with
  | running m' =>
    rw [hnext] at hend
    cases hend
  | done m' outcome' =>
    rw [hnext] at hend
    cases hend
    exact ⟨m, outcome, rfl, rfl⟩

theorem finish_unique {fuel' : Nat} {r r' : Report}
    (h : finish limits fuel next = some r) (h' : finish limits fuel' next = some r') : r = r' := by
  obtain ⟨e, he, rfl⟩ := Option.map_eq_some_iff.mp h
  obtain ⟨e', he', rfl⟩ := Option.map_eq_some_iff.mp h'
  rw [iterate_unique he he']

end Thread

/-! ## Starts of runs -/

/-- The ways in which a host starts a run on a thread, under limits of its choice: it runs the main chunk of a
    program, or it calls a value. -/
inductive Opening (t : Thread) : (Limits → Next) → Prop
  | program (p : Program) : Opening t fun _ => t.startProgram p
  | call (callee : Value) (args : List Value) : Opening t fun limits => t.startCall limits callee args

end KestrelLang
