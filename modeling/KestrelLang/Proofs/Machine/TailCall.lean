import KestrelLang.Proofs.Machine.Precedence
import KestrelLang.Proofs.Machine.Rest

/-! # What tail calls mean

* `Next.Answers` — a call ends with a value of its own, and with undef if a marker is pending.
* `Frame.callThenReturn` — the frame that would make an ordinary call and return its value.
* `Next.Shallow` — no call was counted, and none was refused for its depth.
* `tailCall_is_call_then_return` — a tail call ends as that frame does, and neither raises the depth nor
  fails over it. -/

namespace KestrelLang

open KestrelLang.Code

/-! ## The values that calls end with -/

/-- A call that ended with a value did so with one of its own, and with undef if a marker is pending. -/
def Next.Answers : Next → Prop
  | .done m (.value v) => v.isTailCalled = false ∧ (m.thread.channel = none ∨ v = .undefined)
  | _ => True

theorem apply_not_tailCalled {b : Builtin} {limit : Option Nat} {s : Store} {out : String}
    {args : List Value} {v : Value} (h : (b.apply limit s out args).result = .ok v) :
    v.isTailCalled = false := by
  have hwrite : ∀ text, (writeText limit s out text).result = .ok v → v.isTailCalled = false := by
    intro text htext
    unfold writeText at htext
    split at htext
    · cases htext
      rfl
    · cases htext
  cases b with
  | print | say => exact hwrite _ h
  | push =>
    simp only [Builtin.apply, pushOnto] at h
    split at h <;> cases h
    rfl
  | _ =>
    cases h
    rfl

namespace Machine

variable {m : Machine} {limits : Limits} {callers : List Suspended} {next : Next}

theorem answers_raiseTrouble (t : Trouble) : (m.raiseTrouble callers t).Answers := by
  cases t <;> trivial

theorem answers_raiseHere (span : Span) (t : Trouble) : (m.raiseHere span t).Answers := by
  cases t <;> trivial

theorem answers_deliver {v : Value} (hv : v.isTailCalled = false)
    (hpending : m.thread.channel = none ∨ v = .undefined) : (m.deliver callers v).Answers := by
  cases callers with
  | nil => exact ⟨hv, hpending⟩
  | cons s rest => trivial

theorem Entered.answers {callee : Value} {args : List Value} (h : m.Entered limits callers args callee next)
    (hempty : m.thread.channel = none) : next.Answers := by
  cases h with
  | starts | hollow => trivial
  | noCode | arity | notCallable | fails => exact answers_raiseTrouble _
  | delivers hresult => exact answers_deliver (apply_not_tailCalled hresult) (.inl hempty)

theorem Called.answers {callee : Value} {args : List Value} (h : m.Called limits callers callee args next)
    (hempty : m.thread.channel = none) : next.Answers := by
  cases h with
  | refused => exact answers_raiseTrouble _
  | admitted _ hentered => exact hentered.answers hempty

theorem Left.answers {v : Value} (h : m.Left limits v next) (hbase : m.base = .call)
    (hpending : m.thread.channel = none ∨ v = .undefined) : next.Answers := by
  cases h with
  | ended _ hprogram => cases hbase.symm.trans hprogram
  | astray => trivial
  | replaced _ hv _ hentered =>
    -- A frame that parked a tail call leaves no marker.
    obtain hempty | rfl := hpending
    · exact hentered.answers hempty
    · cases hv
  | delivers _ hv => exact answers_deliver hv hpending

theorem Clear.channel_eq_none (hclear : m.Clear) {i : Instruction} (hi : m.frame.instruction? = some i)
    (hdispatch : ∀ table, i.op ≠ .dispatch table) : m.thread.channel = none := by
  obtain hempty | hchain := hclear
  · exact hempty
  · obtain hip | ⟨i', table, -, hi', hop, -⟩ := hchain.head
    · simp [Frame.instruction?, hip] at hi
    · cases hi.symm.trans hi'
      exact absurd hop (hdispatch table)

theorem Executed.answers {i : Instruction} (h : m.Executed limits i next) (hbase : m.base = .call)
    (hclear : m.Clear) (hi : m.frame.instruction? = some i) : next.Answers := by
  have hempty := hclear.channel_eq_none hi
  cases h with
  | within | aborts | dispatches | collides | occupied => trivial
  | unbound | fails => exact answers_raiseHere ..
  | calls hop _ hcalled => exact hcalled.answers (hempty (by simp [hop]))
  | returns hop _ hleft => exact hleft.answers hbase (.inl (hempty (by simp [hop])))
  | signals _ _ hleft => exact hleft.answers hbase (.inr rfl)
  | parks hop _ _ hleft => exact hleft.answers hbase (.inl (hempty (by simp [hop])))

end Machine

theorem answers_step {limits : Limits} {m : Machine} (hclear : m.Clear) (hbase : m.base = .call) :
    (step limits m).Answers := by
  have h := stepped limits m
  generalize step limits m = next at h ⊢
  cases h with
  | ends => exact (Machine.left ..).answers hbase (.inr rfl)
  | strays | stops => trivial
  | runs hi => exact (Machine.executed ..).answers hbase hclear hi

theorem answers_iterate {limits : Limits} (hcancel : limits.cancelAfter = none) {fuel : Nat} {next : Next}
    (hsound : next.Sound) (hclear : next.Clear) (hcall : next.Above False .call [] next)
    (hanswers : next.Answers) {m : Machine}
    {outcome : Outcome} (h : iterate limits fuel next = some (m, outcome)) :
    (Next.done m outcome).Answers := by
  have hend := iterate_invariant
    (I := fun next => next.Sound ∧ next.Clear ∧ next.Above False .call [] next ∧ next.Answers) (fun m hm => ?_)
    ⟨hsound, hclear, hcall, hanswers⟩ h
  · exact hend.2.2.2
  · obtain ⟨hsound, hclear, habove, -⟩ := hm
    cases habove with
    | running hm =>
      exact ⟨sound_step hsound, clear_step hsound hclear, above_step hcancel nofun (.inr rfl) hm,
        answers_step hclear hm.started⟩

/-! ## An ordinary call in place of a tail call -/

def Machine.invocation (m : Machine) : Machine := { m with callers := [], base := .call }

/-- The frame that makes an ordinary call and then returns its value: the callee and the arguments of a tail
    call are on its stack, and a marker that comes back leaves it. -/
def Frame.callThenReturn (f : Frame) (c : TailCall Value) (name : String) (site : Span) : Frame :=
  { f with
    unit := { f.unit with code := #[⟨.call name c.args.length .exit, site⟩, ⟨.ret, site⟩] }
    stack := c.args.reverse ++ c.target :: f.stack
    ip := some 0 }

/-- The innermost call by itself, if its frame makes an ordinary call in place of a tail call. -/
def Machine.calling (m : Machine) (c : TailCall Value) (name : String) (site : Span) : Machine :=
  { m.invocation with frame := m.frame.callThenReturn c name site }

def Failure.wording : Failure → String
  | .fault f => f.summary
  | failure => failure.message

/-- The same value, or failures of the same class with the same wording. -/
def Outcome.Same : Outcome → Outcome → Prop
  | .value v, .value w => v = w
  | .failure f, .failure g => f.kindText = g.kindText ∧ f.wording = g.wording
  | .aborted, .aborted => True
  | _, _ => False

/-- Two runs end alike: with the same outcome, marker, environments, arrays, text written and events. -/
structure SameEnd (a b : Machine × Outcome) : Prop where
  outcome : a.2.Same b.2
  channel : a.1.thread.channel = b.1.thread.channel
  store : a.1.thread.store = b.1.thread.store
  out : a.1.out = b.1.out
  events : a.1.events = b.1.events

theorem cause_throughCall (f : Fault) (origin : String) (span : Span) :
    (f.throughCall origin span).cause = f.cause := by
  have hlocate : (f.locate origin span).cause = f.cause := by
    unfold Fault.locate
    split <;> rfl
  unfold Fault.throughCall Fault.addCallSite
  dsimp only
  repeat' split
  all_goals exact hlocate

theorem same_leaveCall (f : Failure) (s : Suspended) :
    (Outcome.failure f).Same (.failure (Machine.leaveCall f s)) := by
  cases f with
  | fault f =>
    have hcause := cause_throughCall f s.frame.unit.origin s.site
    constructor
    · simp only [Machine.leaveCall, Failure.kindText, Failure.root, Fault.kind, hcause]
    · simp only [Machine.leaveCall, Failure.wording, Fault.summary, hcause]
  | _ => exact ⟨rfl, rfl⟩

namespace Machine

variable {m : Machine} {limits : Limits}

def awaiting (m : Machine) (c : TailCall Value) (name : String) (site : Span) : Suspended :=
  ⟨{ m.frame.callThenReturn c name site with stack := m.frame.stack }, .exit, site⟩

/-- A tail call starts its callee alone, and the ordinary call starts it above the frame that waits. -/
theorem above_calling (hcancel : limits.cancelAfter = none) (hlimit : limits.maxDepth = none)
    (hslot : m.thread.trampoline = none) {c : TailCall Value} (hc : m.frame.tailCall? = some c)
    (name : String) (site : Span) :
    (step limits m.invocation).Above True .call [m.awaiting c name site]
      (step limits (m.calling c name site)) := by
  obtain ⟨i, hi, -, hparks⟩ := exec_parks limits (m := m.invocation) hc
  obtain ⟨ip, hip, hcode⟩ := Frame.instruction?_eq_some.mp hi
  obtain ⟨steps, polls, htail⟩ := step_eq_exec (m := m.invocation) hcancel hip hcode
  obtain ⟨steps', polls', hcall⟩ := step_eq_exec (m := m.calling c name site)
    (i := ⟨.call name c.args.length .exit, site⟩) hcancel rfl rfl
  rw [htail, hparks, hcall, tailCall_eq_enter]
  · simp only [exec, calling, Frame.callThenReturn, popMany?_reverse_append, call, hlimit]
    refine Agrees.enter [] ?_ _ _
    exact ⟨rfl, rfl, rfl, rfl, .inl trivial, rfl, rfl, rfl, rfl⟩
  · exact hslot
  · rintro ⟨-, hprogram⟩
    cases hprogram

theorem leave_alone (hbase : m.base = .call) (hcallers : m.callers = []) {v : Value}
    (hv : v.isTailCalled = false) :
    m.leave limits v =
      .done { m with thread := { m.thread with depth := m.thread.depth - 1 } } (.value v) := by
  unfold leave
  rw [if_neg (by rw [hbase]; exact fun h => nomatch h.2), hv, if_neg Bool.false_ne_true,
    deliver_eq_answer, hcallers]
  rfl

theorem iterate_awaiting (hcancel : limits.cancelAfter = none) {n : Machine} (hbase : n.base = .call)
    {v : Value} (hv : v.isTailCalled = false) (hpending : n.thread.channel = none ∨ v = .undefined)
    (c : TailCall Value) (name : String) (site : Span) :
    ∃ n', iterate limits 1 (n.answer [m.awaiting c name site] v) = some (n', .value v) ∧
      n'.thread.channel = n.thread.channel ∧ n'.thread.store = n.thread.store ∧ n'.out = n.out ∧
      n'.events = n.events := by
  let resumed : Machine := { n with frame := (m.awaiting c name site).resume n.thread v, callers := [] }
  have hstep : ∃ steps polls, step limits resumed =
      { resumed with steps := steps, polls := polls }.leave limits v := by
    cases hchannel : n.thread.channel with
    | none =>
      -- The value is on the stack, and the frame returns it.
      have hframe : resumed.frame = { m.frame.callThenReturn c name site with
          stack := v :: m.frame.stack, ip := some 1 } := by
        simp only [resumed, Suspended.resume, hchannel]
        rfl
      obtain ⟨steps, polls, hstep⟩ := step_eq_exec (m := resumed) (i := ⟨.ret, site⟩) hcancel
        (by rw [hframe]) (by rw [hframe]; rfl)
      refine ⟨steps, polls, hstep.trans ?_⟩
      simp only [exec, hframe]
    | some marker =>
      -- The marker has taken the frame to its end, which leaves undef.
      have hframe : resumed.frame.ip = none := by
        simp only [resumed, Suspended.resume, hchannel]
        rfl
      obtain hempty | rfl := hpending
      · cases hempty.symm.trans hchannel
      · exact ⟨resumed.steps, resumed.polls, by simp only [step, hframe]⟩
  obtain ⟨steps, polls, hstep⟩ := hstep
  refine ⟨{ resumed with
    thread := { n.thread with depth := n.thread.depth - 1 }, steps := steps, polls := polls }, ?_,
    rfl, rfl, rfl, rfl⟩
  rw [show n.answer [m.awaiting c name site] v = .running resumed from rfl, iterate, hstep, leave_alone]
  · rfl
  · exact hbase
  · rfl
  · exact hv

end Machine

/-- A tail call ends as the ordinary call does, and if it goes on for ever, then so does that. -/
theorem ends_as_calling {limits : Limits} (hcancel : limits.cancelAfter = none)
    (hlimit : limits.maxDepth = none) {m : Machine} (hm : m.invocation.Sound) (hclear : m.Clear)
    (hslot : m.thread.trampoline = none) {c : TailCall Value} (hc : m.frame.tailCall? = some c)
    (name : String) (site : Span) :
    (∀ fuel a, iterate limits fuel (.running m.invocation) = some a → ∃ fuel' b,
      iterate limits fuel' (.running (m.calling c name site)) = some b ∧ SameEnd a b) ∧
    (∀ fuel b, iterate limits fuel (.running (m.calling c name site)) = some b → ∃ fuel' a,
      iterate limits fuel' (.running m.invocation) = some a ∧ SameEnd a b) := by
  have habove := Machine.above_calling hcancel hlimit hslot hc name site
  have hwaits : [m.awaiting c name site] ≠ [] ∨ Base.call = .call := .inr rfl
  -- Both runs start with the same step inside the callee. From there on the run with the ordinary call is the other one
  -- above one more caller, which only returns the value.
  have hforth : ∀ fuel a, iterate limits fuel (step limits m.invocation) = some a → ∃ fuel' b,
      iterate limits fuel' (step limits (m.calling c name site)) = some b ∧ SameEnd a b := by
    rintro fuel ⟨m', outcome⟩ ha
    have hanswers : (Next.done m' outcome).Answers :=
      answers_iterate hcancel (sound_step hm) (clear_step hm hclear)
        (above_step hcancel nofun (.inr rfl) (Machine.above_self rfl)) (answers_step hclear rfl) ha
    obtain ⟨next, hnext, hleads⟩ := iterate_above hcancel (fun _ => hlimit) hwaits habove ha
    cases hnext with
    | answered hagrees =>
      rename_i n v
      obtain ⟨hv, hpending⟩ := hanswers
      rw [← hagrees.channel] at hpending
      obtain ⟨n', hends, hchannel, hstore, hout, hevents⟩ :=
        Machine.iterate_awaiting (m := m) hcancel hagrees.base hv hpending c name site
      obtain ⟨fuel', hfuel'⟩ := hleads.iterate hends
      refine ⟨fuel', (n', .value v), hfuel', rfl, ?_, ?_, ?_, ?_⟩
      · exact (hchannel.trans hagrees.channel).symm
      · exact (hstore.trans hagrees.store).symm
      · exact (hout.trans hagrees.out).symm
      · exact (hevents.trans hagrees.events).symm
    | failed hagrees =>
      obtain ⟨fuel', hfuel'⟩ := hleads.iterate (iterate_done limits 0 _ _)
      exact ⟨fuel', _, hfuel', same_leaveCall _ _, hagrees.channel.symm, hagrees.store.symm,
        hagrees.out.symm, hagrees.events.symm⟩
    | aborted hagrees =>
      obtain ⟨fuel', hfuel'⟩ := hleads.iterate (iterate_done limits 0 _ _)
      exact ⟨fuel', _, hfuel', trivial, hagrees.channel.symm, hagrees.store.symm, hagrees.out.symm,
        hagrees.events.symm⟩
  constructor
  · intro fuel a ha
    cases fuel with
    | zero => cases ha
    | succ fuel =>
      obtain ⟨fuel', b, hb, halike⟩ := hforth fuel a ha
      exact ⟨fuel' + 1, b, hb, halike⟩
  · intro fuel b hb
    cases fuel with
    | zero => cases hb
    | succ fuel =>
      -- If the tail call does not end within the fuel, then the ordinary call has not ended within it either.
      cases ha : iterate limits fuel (step limits m.invocation) with
      | none =>
        cases (iterate_above_none hcancel (fun _ => hlimit) hwaits habove ha).symm.trans hb
      | some a =>
        obtain ⟨fuel', b', hb', halike⟩ := hforth fuel a ha
        obtain rfl : b' = b := iterate_unique hb' hb
        exact ⟨fuel + 1, a, ha, halike⟩

/-! ## The depth of tail calls -/

/-- The run failed since its calls nest too deep. -/
def Outcome.TooDeep : Outcome → Prop
  | .failure f => f.isFault .callDepthExceeded
  | _ => False

/-- No call was counted since the peak was `peak`, and none was refused for its depth. -/
def Next.Shallow (peak : Nat) : Next → Prop
  | .running m => m.thread.peak = peak
  | .done m outcome => m.thread.peak = peak ∧ ¬ outcome.TooDeep

def Trouble.Shallow : Trouble → Prop
  | .fault cause => cause.kind ≠ .callDepthExceeded
  | _ => True

theorem Trouble.OfOperands.shallow {t : Trouble} (h : t.OfOperands) : t.Shallow := by
  cases t with
  | fault cause =>
    intro hkind
    cases (show cause.kind = .type from h).symm.trans hkind
  | _ => trivial

theorem Trouble.OfArguments.shallow {t : Trouble} (h : t.OfArguments) : t.Shallow := by
  cases t with
  | fault cause =>
    intro hkind
    obtain htype | harity := (show cause.kind = .type ∨ cause.kind = .arity from h)
    · cases htype.symm.trans hkind
    · cases harity.symm.trans hkind
  | _ => trivial

namespace Machine

variable {m : Machine} {limits : Limits} {callers : List Suspended} {next : Next}

theorem shallow_raise {failure : Failure} (h : ¬ (Outcome.failure failure).TooDeep) :
    (m.raise callers failure).Shallow m.thread.peak := by
  refine ⟨rfl, ?_⟩
  induction callers generalizing failure with
  | nil => exact h
  | cons s rest ih =>
    refine ih ?_
    cases failure with
    | fault f =>
      simp only [Outcome.TooDeep, leaveCall, Failure.isFault, Failure.root, Fault.kind, cause_throughCall]
      exact h
    | _ => exact h

theorem not_tooDeep_fault {f : Fault} (h : f.cause.kind ≠ .callDepthExceeded) :
    ¬ (Outcome.failure (.fault f)).TooDeep := by
  intro hdeep
  exact h (of_decide_eq_true hdeep)

theorem shallow_raiseTrouble {t : Trouble} (h : t.Shallow) :
    (m.raiseTrouble callers t).Shallow m.thread.peak := by
  cases t with
  | fault cause => exact shallow_raise (not_tooDeep_fault h)
  | failed message => exact shallow_raise (by rintro ⟨⟩)
  | abort => exact ⟨rfl, id⟩

theorem shallow_raiseHere {t : Trouble} {span : Span} (h : t.Shallow) :
    (m.raiseHere span t).Shallow m.thread.peak := by
  cases t with
  | fault cause => exact shallow_raise (not_tooDeep_fault h)
  | failed message => exact shallow_raise (by rintro ⟨⟩)
  | abort => exact ⟨rfl, id⟩

theorem shallow_deliver (v : Value) : (m.deliver callers v).Shallow m.thread.peak := by
  cases callers with
  | nil => exact ⟨rfl, id⟩
  | cons s rest => rfl

theorem Entered.shallow {callee : Value} {args : List Value} (h : m.Entered limits callers args callee next) :
    next.Shallow m.thread.peak := by
  cases h with
  | starts => rfl
  | noCode | arity | notCallable => exact shallow_raiseTrouble (by rintro ⟨⟩)
  | hollow => exact ⟨rfl, id⟩
  | delivers => exact shallow_deliver (m := m.withEffect _) _
  | fails hresult => exact shallow_raiseTrouble (m := m.withEffect _) (apply_trouble hresult).shallow

theorem Left.shallow {v : Value} (h : m.Left limits v next) : next.Shallow m.thread.peak := by
  cases h with
  | ended => exact ⟨rfl, id⟩
  | astray => exact shallow_raise (by rintro ⟨⟩)
  | replaced _ _ _ hentered => exact hentered.shallow
  | delivers => exact shallow_deliver v

/-- Only a call is counted, and only a call can be refused for its depth. -/
theorem Executed.shallow {i : Instruction} (h : m.Executed limits i next) (hi : m.frame.instruction? = some i)
    (hc : m.call? = none) : next.Shallow m.thread.peak := by
  cases h with
  | within | dispatches => rfl
  | unbound => exact shallow_raiseHere (by rintro ⟨⟩)
  | fails _ _ ht => exact shallow_raiseHere ht.shallow
  | aborts => exact ⟨rfl, id⟩
  | calls hop hpop => cases hc.symm.trans (call?_of_fetch hi hop hpop)
  | returns _ _ hleft | signals _ _ hleft | parks _ _ _ hleft => exact hleft.shallow
  | collides | occupied => exact shallow_raise (by rintro ⟨⟩)

def AtCall (m : Machine) : Prop :=
  ∃ i name count landing, m.frame.instruction? = some i ∧ i.op = .call name count landing

end Machine

theorem shallow_step_of_no_call (limits : Limits) {m : Machine} (hc : m.call? = none) :
    (step limits m).Shallow m.thread.peak := by
  have h := stepped limits m
  generalize step limits m = next at h ⊢
  cases h with
  | ends => exact (Machine.left ..).shallow
  | strays | stops => exact Machine.shallow_raise (by rintro ⟨⟩)
  | runs hi => exact (Machine.executed ..).shallow hi hc

theorem shallow_step (limits : Limits) {m : Machine} (hcall : ¬ m.AtCall) :
    (step limits m).Shallow m.thread.peak := by
  refine shallow_step_of_no_call limits ?_
  cases hc : m.call? with
  | none => rfl
  | some c =>
    obtain ⟨i, hi, hc⟩ := Option.bind_eq_some_iff.mp hc
    split at hc
    · exact absurd ⟨i, _, _, _, hi, ‹_›⟩ hcall
    · cases hc

/-- Steps lead from one machine to another, and none of them is a call; tail calls may be among them. -/
inductive CallFree (limits : Limits) : Machine → Machine → Prop
  | refl (m : Machine) : CallFree limits m m
  | step {m m₁ m₂ : Machine} : ¬ m.AtCall → step limits m = .running m₁ → CallFree limits m₁ m₂ →
      CallFree limits m m₂

theorem CallFree.peak {limits : Limits} {m m' : Machine} (h : CallFree limits m m') :
    m'.thread.peak = m.thread.peak := by
  induction h with
  | refl => rfl
  | step hcall hstep _ ih =>
    have hshallow := shallow_step limits hcall
    rw [hstep] at hshallow
    exact ih.trans hshallow

/-! ## Tail calls -/

/-- A tail call means an ordinary call whose value is returned, at constant depth. In every run that starts
    with an empty channel, for every frame that is about to make a tail call, without a wish to stop and
    without a limit on the depth: the innermost call runs on top of its callers as it runs alone, and it ends
    if and only if it would end had the frame made an ordinary call with the landing outside of the frame and
    returned its value, and in the same way. Under any limits the depth is the same wherever the callers are,
    so it stays the same along a chain of tail calls; and while nothing but tail calls is called, the peak
    stays and no failure is that calls nest too deep. -/
theorem tailCall_is_call_then_return {limits : Limits} {t : Thread} {m : Machine} {c : TailCall Value}
    (ht : t.Arises) (hempty : t.channel = none) (hm : Reachable limits t m)
    (hc : m.frame.tailCall? = some c) :
    (limits.cancelAfter = none → limits.maxDepth = none →
      (∀ fuel m' outcome, iterate limits fuel (.running m.invocation) = some (m', outcome) →
        ∃ next, (Next.done m' outcome).Above False m.base m.callers next ∧
          Leads limits (.running m) next) ∧
      ∀ name site,
        (∀ fuel a, iterate limits fuel (.running m.invocation) = some a → ∃ fuel' b,
          iterate limits fuel' (.running (m.calling c name site)) = some b ∧ SameEnd a b) ∧
        (∀ fuel b, iterate limits fuel (.running (m.calling c name site)) = some b → ∃ fuel' a,
          iterate limits fuel' (.running m.invocation) = some a ∧ SameEnd a b)) ∧
    (∀ m', Reaches limits m m' → m'.callers = m.callers → m'.thread.depth = m.thread.depth) ∧
    (∀ m', CallFree limits m m' → m'.thread.peak = m.thread.peak ∧
      (¬ m'.AtCall → ∀ m'' outcome, step limits m' = .done m'' outcome →
        m''.thread.peak = m.thread.peak ∧ ¬ outcome.TooDeep)) := by
  have hlevel := hm.level ht.atRest
  have hsound : m.invocation.Sound :=
    ⟨⟨(hm.sound ht).thread, (hm.sound ht).frame, by simp [Machine.invocation]⟩, (hm.sound ht).shaped⟩
  refine ⟨fun hcancel hlimit => ⟨fun fuel m' outcome hends => ?_, fun name site => ?_⟩,
    fun m' hreach hcallers => ?_, fun m' hfree => ⟨hfree.peak, fun hcall m'' outcome hstep => ?_⟩⟩
  · obtain ⟨i, hi, hop, -⟩ := Machine.exec_parks limits hc
    -- The frame is not that of the main chunk, which parks no tail call.
    have hend : m.callers ≠ [] ∨ m.base = .call := by
      cases hbase : m.base with
      | call => exact .inr rfl
      | program => exact .inl fun hcallers => hlevel.not_ground hi hop ⟨by rw [hcallers]; rfl, hbase⟩
    refine iterate_above hcancel nofun hend (.running ?_) hends
    exact ⟨⟨rfl, rfl, rfl, rfl, .inr ⟨rfl, rfl⟩, rfl, rfl, rfl, rfl⟩, rfl, rfl⟩
  · exact ends_as_calling hcancel hlimit hsound (hm.clear ht hempty) hlevel.slot hc name site
  · have hbase := hreach.precedes.base
    rw [(hreach.level hlevel).depth, hlevel.depth, hcallers, hbase]
  · have hshallow := shallow_step limits hcall
    rw [hstep, hfree.peak] at hshallow
    exact hshallow

/-- The closure that tail calls `sub { return 7 }` could as well have called it and returned its value. -/
theorem relayed_calls_and_returns :
    ∃ c, (Relayed.after 3).frame.tailCall? = some c ∧
      ∃ fuel m', iterate Escape.limits fuel (.running ((Relayed.after 3).calling c "" Escape.place)) =
        some (m', .value (.int 7)) := by
  have hreach : Reachable Escape.limits (.new 0) (Relayed.after 3) := by
    obtain ⟨m₀, hstart, hreach⟩ := Relayed.reaches_after (n := 3) (by decide +kernel)
    exact ⟨m₀, hstart ▸ .program Relayed.compile_relayed, hreach⟩
  obtain ⟨c, hc⟩ := Option.isSome_iff_exists.mp
    (show (Relayed.after 3).frame.tailCall?.isSome by decide +kernel)
  obtain ⟨m', hends⟩ : ∃ m', iterate Escape.limits 9 (.running (Relayed.after 3).invocation) =
      some (m', .value (.int 7)) := ends_with_int (by decide +kernel)
  obtain ⟨fuel, ⟨m'', outcome'⟩, hcalls, halike⟩ :=
    (((tailCall_is_call_then_return (.new 0) rfl hreach hc).1 rfl rfl).2 "" Escape.place).1 _ _ hends
  refine ⟨c, hc, fuel, m'', hcalls.trans ?_⟩
  have hsame := halike.outcome
  cases outcome' with
  | value w =>
    obtain rfl : .int 7 = w := hsame
    rfl
  | _ => exact hsame.elim

end KestrelLang
