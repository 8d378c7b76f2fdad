import KestrelLang.Proofs.Machine.Limits

/-! # What a wish to stop does to a run

The host is asked after every so many instructions, whichever frame runs them. Every way to go on for ever takes
instructions, so a run whose host wishes to stop ends; and up to there it is the run of a host that never does.

* `Machine.Writes` — the counters are the same, and more text may have been written.
* `writes_step` — a step fetches at most one instruction, and only adds to what was written.
* `Machine.OnTime` — the host was asked as often as is due, and no more than `n` times.
* `forward_to_fetch` — frames that end without an instruction are used up.
* `cancellation_only_truncates` — a wish to stop ends every run and changes nothing before. -/

namespace KestrelLang

open KestrelLang.Code

/-! ## What was written -/

theorem appendWithin_cases (limit : Option Nat) (out text : String) :
    appendWithin limit out text = .ok (out ++ text) ∨ appendWithin limit out text = .error out := by
  unfold appendWithin
  split
  · exact .inl rfl
  · split
    · exact .inr rfl
    · exact .inl rfl

theorem out_writeText (limit : Option Nat) (s : Store) (out text : String) :
    ∃ more, (writeText limit s out text).out = out ++ more := by
  unfold writeText
  obtain h | h := appendWithin_cases limit out text
  · rw [h]
    exact ⟨text, rfl⟩
  · rw [h]
    exact ⟨"", String.append_empty.symm⟩

theorem out_apply (b : Builtin) (limit : Option Nat) (s : Store) (out : String) (args : List Value) :
    ∃ more, (b.apply limit s out args).out = out ++ more := by
  cases b with
  | print | say => exact out_writeText ..
  | push =>
    refine ⟨"", ?_⟩
    simp only [Builtin.apply, pushOnto, String.append_empty]
    split <;> rfl
  | _ => exact ⟨"", String.append_empty.symm⟩

/-- The second machine has the counters of the first one, and it may have written more. -/
structure Machine.Writes (m n : Machine) : Prop where
  steps : n.steps = m.steps
  polls : n.polls = m.polls
  out : ∃ more, n.out = m.out ++ more

namespace Machine

variable {m n : Machine} {limits : Limits} {callers : List Suspended} {next : Next}

theorem Writes.refl (m : Machine) : m.Writes m := ⟨rfl, rfl, "", String.append_empty.symm⟩

theorem Writes.trans {k : Machine} (h : m.Writes n) (h' : n.Writes k) : m.Writes k := by
  obtain ⟨before, hbefore⟩ := h.out
  obtain ⟨more, hmore⟩ := h'.out
  exact ⟨h'.steps.trans h.steps, h'.polls.trans h.polls, before ++ more, by
    rw [hmore, hbefore, String.append_assoc]⟩

theorem writes_raiseTrouble (m : Machine) (t : Trouble) : m.Writes (m.raiseTrouble callers t).machine := by
  cases t <;> exact .refl m

theorem writes_deliver (m : Machine) (v : Value) : m.Writes (m.deliver callers v).machine := by
  cases callers <;> exact ⟨rfl, rfl, "", String.append_empty.symm⟩

theorem Entered.writes {callee : Value} {args : List Value} (h : m.Entered limits callers args callee next) :
    m.Writes next.machine := by
  -- A builtin is the only callee that writes.
  have heffect : ∀ b : Builtin, m.Writes (m.withEffect (b.apply limits.outLimit m.thread.store m.out args)) :=
    fun b => ⟨rfl, rfl, out_apply b limits.outLimit m.thread.store m.out args⟩
  cases h with
  | starts => exact ⟨rfl, rfl, "", String.append_empty.symm⟩
  | noCode | arity | notCallable => exact writes_raiseTrouble ..
  | hollow => exact .refl m
  | delivers => exact (heffect _).trans (writes_deliver ..)
  | fails => exact (heffect _).trans (writes_raiseTrouble ..)

theorem Called.writes {callee : Value} {args : List Value} (h : m.Called limits callers callee args next) :
    m.Writes next.machine := by
  cases h with
  | refused => exact ⟨rfl, rfl, "", String.append_empty.symm⟩
  | admitted _ hentered => exact ⟨hentered.writes.steps, hentered.writes.polls, hentered.writes.out⟩

theorem Left.writes {v : Value} (h : m.Left limits v next) : m.Writes next.machine := by
  cases h with
  | ended | astray => exact .refl m
  | replaced _ _ _ hentered => exact ⟨hentered.writes.steps, hentered.writes.polls, hentered.writes.out⟩
  | delivers => exact writes_deliver ..

theorem Executed.writes {i : Instruction} (h : m.Executed limits i next) : m.Writes next.machine := by
  cases h with
  | within | dispatches => exact ⟨rfl, rfl, "", String.append_empty.symm⟩
  | @fails _ t => cases t <;> exact ⟨rfl, rfl, "", String.append_empty.symm⟩
  | unbound | aborts | collides | occupied => exact .refl m
  | calls _ _ hcalled => exact hcalled.writes
  | returns _ _ hleft => exact hleft.writes
  | signals _ _ hleft | parks _ _ _ hleft => exact ⟨hleft.writes.steps, hleft.writes.polls, hleft.writes.out⟩

end Machine

/-! ## Steps -/

/-- The machine once it has fetched an instruction, if there is one. -/
def Machine.fetched (interval : Nat) (m : Machine) : Machine :=
  if m.frame.instruction?.isSome then m.ticked interval else m

theorem Machine.out_fetched (interval : Nat) (m : Machine) : (m.fetched interval).out = m.out := by
  unfold fetched
  split <;> rfl

theorem writes_step (limits : Limits) (m : Machine) :
    (m.fetched limits.interval).Writes (step limits m).machine := by
  have h := stepped limits m
  generalize step limits m = next at h ⊢
  unfold Machine.fetched
  cases h with
  | ends hip =>
    rw [if_neg (by simp [Frame.instruction?, hip])]
    exact (Machine.left ..).writes
  | strays hnone =>
    rw [if_neg (by simp [hnone])]
    exact .refl m
  | stops hi =>
    rw [if_pos (by simp [hi])]
    exact .refl _
  | runs hi =>
    rw [if_pos (by simp [hi])]
    exact (Machine.executed ..).writes

/-- The number of instructions that are fetched in `n` steps, in whatever frames. -/
def Next.fetches (limits : Limits) : (n : Nat) → Next → Nat
  | 0, _ => 0
  | _ + 1, .done .. => 0
  | n + 1, .running m => (if m.frame.instruction?.isSome then 1 else 0) + (step limits m).fetches limits n

theorem steps_forward (limits : Limits) (n : Nat) (next : Next) :
    (next.forward limits n).machine.steps = next.machine.steps + next.fetches limits n := by
  induction n generalizing next with
  | zero => rfl
  | succ n ih =>
    cases next with
    | done m outcome => rfl
    | running m =>
      have hstep : (step limits m).machine.steps =
          m.steps + if m.frame.instruction?.isSome then 1 else 0 := by
        rw [(writes_step limits m).steps, Machine.fetched]
        split <;> rfl
      rw [Next.forward, ih, hstep, Next.fetches]
      exact Nat.add_assoc ..

/-- The second machine comes no earlier than the first one. -/
structure Machine.Behind (m n : Machine) : Prop where
  polls : m.polls ≤ n.polls
  out : ∃ more, n.out = m.out ++ more

theorem Machine.Behind.step {m n : Machine} (h : m.Behind n) (limits : Limits) :
    m.Behind (step limits n).machine := by
  have hstep := writes_step limits n
  constructor
  · rw [hstep.polls]
    refine Nat.le_trans h.polls ?_
    unfold Machine.fetched Machine.ticked
    split
    · dsimp only
      split
      · exact Nat.le_succ _
      · exact Nat.le_refl _
    · exact Nat.le_refl _
  · obtain ⟨before, hbefore⟩ := h.out
    obtain ⟨more, hmore⟩ := hstep.out
    refine ⟨before ++ more, ?_⟩
    rw [hmore, Machine.out_fetched, hbefore, String.append_assoc]

theorem behind_forward (limits : Limits) (next : Next) {a b : Nat} (hab : a ≤ b) :
    (next.forward limits a).machine.Behind (next.forward limits b).machine := by
  rw [← Nat.add_sub_cancel' hab, Next.forward_add]
  refine Next.forward_invariant (P := fun later => (next.forward limits a).machine.Behind later.machine)
    (fun m h => h.step limits) ?_ _
  exact ⟨Nat.le_refl _, "", String.append_empty.symm⟩

/-! ## The host's wish -/

/-- The limits of a host that never wishes to stop. -/
def Limits.free (limits : Limits) : Limits := { limits with cancelAfter := none }

/-- The limits of a host that wishes to stop once it was asked more than `n` times. -/
def Limits.cut (limits : Limits) (n : Nat) : Limits := { limits with cancelAfter := some n }

/-- The host was asked once in every `interval` instructions, and not more than `n` times. -/
structure Machine.OnTime (interval n : Nat) (m : Machine) : Prop where
  polls : m.polls = m.steps / interval
  asked : m.polls ≤ n

section Wish

variable {limits : Limits} {n : Nat} {m : Machine} {i : Instruction}

theorem polls_ticked {interval : Nat} (h : m.polls = m.steps / interval) :
    (m.ticked interval).polls = (m.ticked interval).steps / interval := by
  unfold Machine.ticked
  dsimp only
  rw [Nat.succ_div, h]
  by_cases hdue : (m.steps + 1) % interval = 0
  · rw [if_pos hdue, if_pos (Nat.dvd_of_mod_eq_zero hdue)]
  · rw [if_neg hdue, if_neg fun hdvd => hdue (Nat.mod_eq_zero_of_dvd hdvd), Nat.add_zero]

theorem not_stopped_free : ¬ m.Stopped limits.free := by
  rintro ⟨-, hcanceled⟩
  cases hcanceled

/-- The machine that the host stops has fetched all instructions but one of those it may fetch. -/
theorem Machine.OnTime.stopped (h : m.OnTime limits.interval n) (hstopped : m.Stopped (limits.cut n)) :
    m.polls = n ∧ m.steps + 1 = (n + 1) * limits.interval := by
  have hasked : n < m.polls + 1 := of_decide_eq_true hstopped.2
  have hpolls : m.polls = n := Nat.le_antisymm h.asked (Nat.le_of_lt_succ hasked)
  refine ⟨hpolls, ?_⟩
  have hticked : (m.ticked limits.interval).polls = (m.steps + 1) / limits.interval := polls_ticked h.polls
  rw [show (m.ticked limits.interval).polls = m.polls + 1 from if_pos hstopped.1, hpolls] at hticked
  have hdue : limits.interval ∣ m.steps + 1 := Nat.dvd_of_mod_eq_zero hstopped.1
  rw [hticked, Nat.div_mul_cancel hdue]

theorem Machine.OnTime.fetched (h : m.OnTime limits.interval n)
    (hgoes : m.frame.instruction?.isSome → ¬ m.Stopped (limits.cut n)) :
    (m.fetched limits.interval).OnTime limits.interval n := by
  unfold Machine.fetched
  split
  · rename_i hsome
    refine ⟨polls_ticked h.polls, ?_⟩
    unfold Machine.ticked
    dsimp only
    split
    · rename_i hdue
      refine Nat.le_of_not_lt fun hasked => hgoes hsome ⟨hdue, ?_⟩
      exact decide_eq_true hasked
    · exact h.asked
  · exact h

theorem Machine.OnTime.writes {interval : Nat} {m' : Machine} (h : m.OnTime interval n) (hwrites : m.Writes m') :
    m'.OnTime interval n := by
  constructor
  · rw [hwrites.polls, hwrites.steps]
    exact h.polls
  · rw [hwrites.polls]
    exact h.asked

/-- A step is stopped by the host, or it is the one that would be taken anyway. -/
theorem stopped_or_same (h : m.OnTime limits.interval n) :
    (∃ i, m.frame.instruction? = some i ∧ m.Stopped (limits.cut n)) ∨
      (step (limits.cut n) m = step limits.free m ∧
        (step (limits.cut n) m).machine.OnTime limits.interval n) := by
  by_cases hstopped : m.frame.instruction?.isSome ∧ m.Stopped (limits.cut n)
  · obtain ⟨i, hi⟩ := Option.isSome_iff_exists.mp hstopped.1
    exact .inl ⟨i, hi, hstopped.2⟩
  right
  have hgoes : m.frame.instruction?.isSome → ¬ m.Stopped (limits.cut n) := fun hsome hstop =>
    hstopped ⟨hsome, hstop⟩
  refine ⟨?_, (h.fetched hgoes).writes (writes_step (limits.cut n) m)⟩
  refine Machine.step_congr rfl rfl (fun hsome => ?_) fun c _ _ => Machine.call_congr rfl rfl _ _
  exact iff_of_false (hgoes hsome) not_stopped_free

/-! ## Every run ends -/

theorem leave_undefined_cases (limits : Limits) (m : Machine) :
    (∃ m' outcome, m.leave limits .undefined = .done m' outcome) ∨
      ∃ s m', m.callers = s :: m'.callers ∧ m.leave limits .undefined = .running m' := by
  have h := m.left limits .undefined
  generalize m.leave limits .undefined = next at h ⊢
  cases h with
  | ended => exact .inl ⟨_, _, rfl⟩
  | astray hv | replaced _ hv => cases hv
  | delivers =>
    cases m.callers with
    | nil => exact .inl ⟨_, _, rfl⟩
    | cons s rest => exact .inr ⟨s, _, rfl, rfl⟩

/-- Frames that end without an instruction are used up: the run ends, or it comes to an instruction. -/
theorem forward_to_fetch (limits : Limits) (m : Machine) :
    ∃ j, (∃ m' outcome, (Next.running m).forward limits j = .done m' outcome) ∨
      ∃ m', (Next.running m).forward limits j = .running m' ∧ m'.frame.instruction?.isSome ∧
        m'.steps = m.steps ∧ m'.polls = m.polls := by
  -- Each such frame gives way to its caller, so the induction is on their number.
  obtain ⟨bound, hbound⟩ : ∃ bound, m.callers.length < bound := ⟨_, Nat.lt_succ_self _⟩
  induction bound generalizing m with
  | zero => exact absurd hbound (Nat.not_lt_zero _)
  | succ bound ih =>
    cases hi : m.frame.instruction? with
    | some i => exact ⟨0, .inr ⟨m, rfl, Option.isSome_iff_exists.mpr ⟨i, hi⟩, rfl, rfl⟩⟩
    | none =>
      obtain ⟨-, hstep⟩ | ⟨failure, hstep⟩ := Machine.step_of_no_fetch hi limits
      · obtain ⟨m', outcome, hdone⟩ | ⟨s, m', hcallers, hrunning⟩ := leave_undefined_cases limits m
        · exact ⟨1, .inl ⟨m', outcome, hstep.trans hdone⟩⟩
        · rw [hcallers, List.length_cons] at hbound
          have hwrites := (m.left limits .undefined).writes
          rw [hrunning] at hwrites
          obtain ⟨j, hj⟩ := ih m' (Nat.lt_of_succ_lt_succ hbound)
          refine ⟨j + 1, ?_⟩
          rw [Next.forward, hstep, hrunning]
          refine hj.imp_right ?_
          rintro ⟨m'', hm'', hsome, hsteps, hpolls⟩
          exact ⟨m'', hm'', hsome, hsteps.trans hwrites.steps, hpolls.trans hwrites.polls⟩
      · exact ⟨1, .inl ⟨_, _, hstep limits⟩⟩

/-- A run in time ends once no instructions are left that it may fetch. -/
theorem cut_ends (hinterval : 0 < limits.interval) {left : Nat} (h : m.OnTime limits.interval n)
    (hleft : (n + 1) * limits.interval ≤ m.steps + left) :
    ∃ j m' outcome, (Next.running m).forward (limits.cut n) j = .done m' outcome := by
  induction left generalizing m with
  | zero =>
    have hasked : n + 1 ≤ m.steps / limits.interval := (Nat.le_div_iff_mul_le hinterval).mpr hleft
    rw [← h.polls] at hasked
    exact absurd h.asked (Nat.not_le_of_lt hasked)
  | succ left ih =>
    obtain ⟨j, ⟨m', outcome, hdone⟩ | ⟨m', hm', hsome, hsteps, hpolls⟩⟩ :=
      forward_to_fetch (limits.cut n) m
    · exact ⟨j, m', outcome, hdone⟩
    -- The step from here fetches an instruction, so one fewer is left.
    have htime : m'.OnTime limits.interval n := ⟨by rw [hpolls, hsteps, h.polls], by rw [hpolls]; exact h.asked⟩
    have hnext := Next.forward_succ_of_running hm'
    cases hstep : step (limits.cut n) m' with
    | done m'' outcome => exact ⟨j + 1, m'', outcome, hnext.trans hstep⟩
    | running m'' =>
      have hwrites := writes_step (limits.cut n) m'
      rw [hstep, Machine.fetched, if_pos hsome] at hwrites
      have hcounted : m''.steps = m'.steps + 1 := hwrites.steps
      have htime' : m''.OnTime limits.interval n := by
        obtain ⟨i, hi, hstopped⟩ | ⟨-, htime'⟩ := stopped_or_same htime
        · rw [Machine.step_of_stopped hi hstopped] at hstep
          cases hstep
        · rw [hstep] at htime'
          exact htime'
      obtain ⟨j', m₁, outcome, hend⟩ := ih htime' (by omega)
      refine ⟨j + (1 + j'), m₁, outcome, ?_⟩
      rw [← Nat.add_assoc, Next.forward_add, hnext, hstep]
      exact hend

end Wish

/-! ## Starts and reports -/

section Reports

variable {t : Thread} {start : Limits → Next}

theorem Opening.start_cut (h : Opening t start) (limits : Limits) (n : Nat) :
    start (limits.cut n) = start limits.free := by
  cases h with
  | program p => rfl
  | call callee args => exact Machine.call_congr rfl rfl callee args

theorem Opening.counters (h : Opening t start) (limits : Limits) :
    (start limits).machine.steps = 0 ∧ (start limits).machine.polls = 0 := by
  cases h with
  | program p => exact ⟨rfl, rfl⟩
  | call callee args =>
    have hwrites := ((t.machine .call).called limits [] callee args).writes
    exact ⟨hwrites.steps, hwrites.polls⟩

theorem report_counts (m : Machine) (outcome : Outcome) :
    (Thread.report m outcome).steps = m.steps ∧ (Thread.report m outcome).polls = m.polls ∧
      (Thread.report m outcome).out = m.out := by
  unfold Thread.report
  split <;> exact ⟨rfl, rfl, rfl⟩

end Reports

/-! ## Runs that are cut short -/

section Cut

variable {limits : Limits} {n fuel : Nat} {first : Next} {m : Machine} {outcome : Outcome}

/-- The host stopped the run at the machine `m`, which the run that is never stopped comes to after `k` steps. -/
structure StoppedAt (limits : Limits) (n : Nat) (first : Next) (k : Nat) (m : Machine) : Prop where
  same : ∀ j ≤ k, first.forward (limits.cut n) j = first.forward limits.free j
  reached : first.forward limits.free k = .running m
  inTime : m.OnTime limits.interval n
  polls : m.polls = n
  steps : m.steps + 1 = (n + 1) * limits.interval
  due : (m.steps + 1) % limits.interval = 0
  fetch : m.frame.instruction?.isSome

/-- With a wish to stop, a run is in the same state as without, or it was stopped. -/
theorem same_or_stopped (htime : first.machine.OnTime limits.interval n) (j : Nat) :
    (first.forward (limits.cut n) j = first.forward limits.free j ∧
      (first.forward (limits.cut n) j).machine.OnTime limits.interval n) ∨
    ∃ k m f, StoppedAt limits n first k m ∧ f.root = .canceled ∧
      first.forward (limits.cut n) j = .done (m.ticked limits.interval) (.failure f) := by
  have hstep : ∀ m : Machine, m.OnTime limits.interval n →
      (∃ i, m.frame.instruction? = some i ∧ m.Stopped (limits.cut n)) ∨
        (step (limits.cut n) m = step limits.free m ∧
          (step (limits.cut n) m).machine.OnTime limits.interval n) := fun m => stopped_or_same
  refine (Next.forward_parting (P := fun next => next.machine.OnTime limits.interval n) hstep htime j).imp_right ?_
  rintro ⟨k, m, hk, hsame, hm, htime', i, hi, hstopped⟩
  obtain ⟨hpolls, hsteps⟩ := Machine.OnTime.stopped htime' hstopped
  refine ⟨k, m, _, ⟨hsame, ?_, htime', hpolls, hsteps, hstopped.1, Option.isSome_iff_exists.mpr ⟨i, hi⟩⟩,
    Machine.canceled_raise m m.callers "interrupted", ?_⟩
  · rw [← hsame k (Nat.le_refl k)]
    exact hm
  · exact Next.forward_of_done ((Next.forward_succ_of_running hm).trans (Machine.step_of_stopped hi hstopped)) hk

namespace StoppedAt

variable {k j : Nat}

theorem behind (h : StoppedAt limits n first k m) (hj : k ≤ j) :
    m.Behind (first.forward limits.free j).machine := by
  have hbehind := behind_forward limits.free first hj
  rw [h.reached] at hbehind
  exact hbehind

theorem polls_after (h : StoppedAt limits n first k m) (hj : k < j) :
    n < (first.forward limits.free j).machine.polls := by
  have hpolls : (step limits.free m).machine.polls = n + 1 := by
    rw [(writes_step limits.free m).polls, Machine.fetched, if_pos h.fetch, ← h.polls]
    exact if_pos h.due
  have hbehind := behind_forward limits.free first hj
  rw [Next.forward_succ_of_running h.reached] at hbehind
  have hasked := hbehind.polls
  rw [hpolls] at hasked
  exact hasked

theorem asks_again (h : StoppedAt limits n first k m) {m' : Machine}
    (hend : first.forward limits.free fuel = .done m' outcome) : k < fuel ∧ n < m'.polls := by
  have hlater : k < fuel := Next.running_before_done h.reached hend
  have hasked := h.polls_after hlater
  rw [hend] at hasked
  exact ⟨hlater, hasked⟩

end StoppedAt

end Cut

/-- A wish to stop ends every run, and only cuts it short. Whatever the program, and however it was started: with
    `k` instructions between two looks and a wish to stop from look number `n + 1` on, the run ends, after
    fetching at most `(n + 1) * k` instructions in all frames together and looking once for every `k` of them.
    Either it is in all its states the run that is never stopped and ends as that does, with no more than `n` looks,
    or it is stopped at instruction number `(n + 1) * k`: then every state before is one of that run, and the text
    written is that of the last of these states, with which all text written from there on begins. If the run that is never
    stopped ends at all, its text begins with the one of the run cut short, and with no more than `n` looks the two
    reports are the same. -/
theorem cancellation_only_truncates (limits : Limits) (hinterval : 0 < limits.interval) (n : Nat) {t : Thread}
    {start : Limits → Next} (hstart : Opening t start) :
    ∃ fuel r, Thread.finish (limits.cut n) fuel (start (limits.cut n)) = some r ∧
      r.steps = (start (limits.cut n)).fetches (limits.cut n) fuel ∧
      r.steps ≤ (n + 1) * limits.interval ∧
      r.polls = r.steps / limits.interval ∧
      ((r.polls ≤ n ∧ Thread.finish limits.free fuel (start limits.free) = some r ∧
          ∀ j, (start (limits.cut n)).forward (limits.cut n) j = (start limits.free).forward limits.free j) ∨
        ∃ k m f, (∀ j ≤ k, (start (limits.cut n)).forward (limits.cut n) j =
            (start limits.free).forward limits.free j) ∧
          (start limits.free).forward limits.free k = .running m ∧
          r.steps = (n + 1) * limits.interval ∧ r.steps = m.steps + 1 ∧ r.out = m.out ∧
          r.outcome = .failure f ∧ f.root = .canceled ∧
          ∀ j, k ≤ j → ∃ more, ((start limits.free).forward limits.free j).machine.out = r.out ++ more) ∧
      ∀ fuel' r', Thread.finish limits.free fuel' (start limits.free) = some r' →
        (∃ more, r'.out = r.out ++ more) ∧ (r'.polls ≤ n → r' = r) := by
  rw [hstart.start_cut]
  obtain ⟨hsteps, hpolls⟩ := hstart.counters limits.free
  generalize start limits.free = first at hsteps hpolls ⊢
  have htime : first.machine.OnTime limits.interval n := by
    constructor
    · rw [hsteps, hpolls, Nat.zero_div]
    · rw [hpolls]
      exact Nat.zero_le n
  -- The run cut short comes to an end, as it cannot look more than `n + 1` times.
  obtain ⟨fuel, m, outcome, hend⟩ : ∃ fuel m outcome, first.forward (limits.cut n) fuel = .done m outcome := by
    cases first with
    | done m outcome => exact ⟨0, m, outcome, rfl⟩
    | running m => exact cut_ends hinterval htime (Nat.le_add_left _ _)
  have hfetches := steps_forward (limits.cut n) fuel first
  rw [hend, hsteps, Nat.zero_add] at hfetches
  obtain ⟨hrsteps, hrpolls, hrout⟩ := report_counts m outcome
  refine ⟨fuel, _, Thread.finish_of_done hend, hrsteps.trans hfetches, ?_⟩
  rw [hrsteps, hrpolls, hrout]
  -- Either no look saw the wish, and the two runs are one, or the run stops at the look that did.
  obtain ⟨hfree, hintime⟩ | ⟨k, m', f, hstopped, hroot, hend'⟩ := same_or_stopped htime fuel
  · rw [hend] at hfree hintime
    have hasked := hintime.asked
    refine ⟨?_, hintime.polls, .inl ⟨hasked, Thread.finish_of_done hfree.symm, fun j => ?_⟩, fun fuel' r' hr' => ?_⟩
    · rw [hintime.polls] at hasked
      exact Nat.le_of_lt ((Nat.div_lt_iff_lt_mul hinterval).mp (Nat.lt_succ_of_le hasked))
    · obtain ⟨hsame, -⟩ | ⟨k, m', f, hstopped, -, -⟩ := same_or_stopped htime j
      · exact hsame
      · exact absurd (hstopped.asks_again hfree.symm).2 (Nat.not_lt_of_le hasked)
    · obtain rfl := Thread.finish_unique hr' (Thread.finish_of_done hfree.symm)
      exact ⟨⟨"", by rw [hrout, String.append_empty]⟩, fun _ => rfl⟩
  · cases hend.symm.trans hend'
    refine ⟨Nat.le_of_eq hstopped.steps, ?_, .inr ⟨k, m', f, hstopped.same, hstopped.reached, hstopped.steps, rfl,
      rfl, rfl, hroot, fun j hj => (hstopped.behind hj).out⟩, fun fuel' r' hr' => ?_⟩
    · exact polls_ticked hstopped.inTime.polls
    · obtain ⟨m₁, outcome₁, hend₁, rfl⟩ := Thread.done_of_finish hr'
      obtain ⟨hlater, hasked⟩ := hstopped.asks_again hend₁
      obtain ⟨-, hrpolls', hrout'⟩ := report_counts m₁ outcome₁
      have hbehind := hstopped.behind (Nat.le_of_lt hlater)
      rw [hend₁] at hbehind
      rw [hrpolls', hrout']
      exact ⟨hbehind.out, fun hfew => absurd hasked (Nat.not_lt_of_le hfew)⟩

/-! ## A run to look at -/

namespace Endless

open Escape (place forever)

/-- A script that never ends by itself: `while (1) { }`. -/
def script : Module := ⟨[forever none []], place⟩

def program : Program :=
  match compile "endless" script with
  | .ok p => p
  | .error _ => default

end Endless

/-- With a look after every fourth instruction and a wish to stop from the third look on, the endless script is
    stopped. -/
theorem endless_is_stopped :
    ∃ fuel r, (Thread.new 0).run (Escape.limits.cut 2) fuel Endless.program = some r ∧ r.steps ≤ 12 ∧
      r.polls = r.steps / 4 := by
  obtain ⟨fuel, r, hends, -, hsteps, hpolls, -⟩ :=
    cancellation_only_truncates Escape.limits (by decide) 2 (.program (t := .new 0) Endless.program)
  exact ⟨fuel, r, hends, hsteps, hpolls⟩

end KestrelLang
