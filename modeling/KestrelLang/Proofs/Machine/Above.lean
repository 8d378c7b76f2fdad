import KestrelLang.Proofs.Machine.Reach

/-! # Calls above suspended frames

* `Machine.Agrees` — two machines agree on everything but their frames and their counters.
* `Machine.Above` — the second machine is the first one on top of more suspended frames.
* `above_step` — a step does not see those frames, nor the counters, until the call returns to them.
* `Leads` — steps lead from one state to another.
* `iterate_above` — so a call runs on top of them as it runs alone, and then they go on with its end. -/

namespace KestrelLang

open KestrelLang.Code

/-! ## Operands -/

theorem popMany?_reverse_append (args rest : List Value) :
    Machine.popMany? args.length (args.reverse ++ rest) = some (args, rest) := by
  have hlength : args.length = args.reverse.length := List.length_reverse.symm
  rw [Machine.popMany?, if_pos (by rw [List.length_append, ← hlength]; omega), hlength,
    List.take_left, List.drop_left, List.reverse_reverse]

/-! ## Machines that agree -/

/-- The machines agree on everything but their frames, their counters and how they were started: the first
    one by a call. Under `loose` the depth may differ. -/
structure Machine.Agrees (loose : Prop) (base : Base) (m n : Machine) : Prop where
  id : n.thread.id = m.thread.id
  store : n.thread.store = m.thread.store
  channel : n.thread.channel = m.thread.channel
  slot : n.thread.trampoline = m.thread.trampoline
  depth : loose ∨ n.thread.depth = m.thread.depth ∧ n.thread.peak = m.thread.peak
  out : n.out = m.out
  events : n.events = m.events
  started : m.base = .call
  base : n.base = base

/-- The second machine is the first one on top of the frames `outer`, which stopped at calls. -/
structure Machine.Above (loose : Prop) (base : Base) (outer : List Suspended) (m n : Machine) : Prop
    extends m.Agrees loose base n where
  frame : n.frame = m.frame
  callers : n.callers = m.callers ++ outer

/-- The frame that goes on after its call came back with a value. -/
def Suspended.resume (s : Suspended) (t : Thread) (v : Value) : Frame :=
  if t.channel.isSome then s.frame.jump t.store s.landing
  else { s.frame with stack := v :: s.frame.stack, ip := s.frame.ip.map (· + 1) }

def Machine.answer (m : Machine) (callers : List Suspended) (v : Value) : Next :=
  match callers with
  | [] => .done m (.value v)
  | s :: rest => .running { m with frame := s.resume m.thread v, callers := rest }

/-- The second state is the first one on top of the frames `outer`: they take the end of the call. -/
inductive Next.Above (loose : Prop) (base : Base) (outer : List Suspended) : Next → Next → Prop
  | running {m n : Machine} : m.Above loose base outer n → Above loose base outer (.running m) (.running n)
  | answered {m n : Machine} {v : Value} : m.Agrees loose base n →
      Above loose base outer (.done m (.value v)) (n.answer outer v)
  | failed {m n : Machine} {f : Failure} : m.Agrees loose base n →
      Above loose base outer (.done m (.failure f)) (.done n (.failure (outer.foldl Machine.leaveCall f)))
  | aborted {m n : Machine} : m.Agrees loose base n →
      Above loose base outer (.done m .aborted) (.done n .aborted)

namespace Machine

variable {limits : Limits} {loose : Prop} {base : Base} {m n : Machine} {callers outer : List Suspended}

theorem Agrees.thread_eq (h : m.Agrees loose base n) (hstrict : ¬ loose) : n.thread = m.thread := by
  obtain ⟨hid, hstore, hchannel, hslot, hdepth, -⟩ := h
  obtain ⟨hdepth, hpeak⟩ := hdepth.resolve_left hstrict
  calc n.thread =
      ⟨n.thread.id, n.thread.store, n.thread.channel, n.thread.trampoline, n.thread.depth, n.thread.peak⟩ := rfl
    _ = m.thread := by rw [hid, hstore, hchannel, hslot, hdepth, hpeak]

/-! ## Calls -/

theorem Agrees.raise (h : m.Agrees loose base n) (failure : Failure) :
    (m.raise callers failure).Above loose base outer (n.raise (callers ++ outer) failure) := by
  unfold Machine.raise
  rw [List.foldl_append]
  exact .failed h

theorem Agrees.raiseTrouble (h : m.Agrees loose base n) (t : Trouble) :
    (m.raiseTrouble callers t).Above loose base outer (n.raiseTrouble (callers ++ outer) t) := by
  cases t with
  | fault cause => exact h.raise _
  | failed message => exact h.raise _
  | abort => exact .aborted h

theorem Above.raiseHere (h : m.Above loose base outer n) (span : Span) (t : Trouble) :
    (m.raiseHere span t).Above loose base outer (n.raiseHere span t) := by
  cases t with
  | fault cause =>
    simp only [Machine.raiseHere, h.callers, h.frame]
    exact h.raise _
  | failed message =>
    simp only [Machine.raiseHere, h.callers]
    exact h.raise _
  | abort => exact .aborted h.toAgrees

theorem deliver_eq_answer (m : Machine) (callers : List Suspended) (v : Value) :
    m.deliver callers v =
      { m with thread := { m.thread with depth := m.thread.depth - 1 } }.answer callers v := by
  cases callers <;> rfl

theorem Agrees.deliver (h : m.Agrees loose base n) (v : Value) :
    (m.deliver callers v).Above loose base outer (n.deliver (callers ++ outer) v) := by
  have hdepth : loose ∨
      n.thread.depth - 1 = m.thread.depth - 1 ∧ n.thread.peak = m.thread.peak :=
    h.depth.imp_right fun hcounts => ⟨by rw [hcounts.1], hcounts.2⟩
  rw [deliver_eq_answer, deliver_eq_answer]
  cases callers with
  | nil =>
    refine .answered ?_
    exact ⟨h.id, h.store, h.channel, h.slot, hdepth, h.out, h.events, h.started, h.base⟩
  | cons s rest =>
    refine .running ⟨⟨h.id, h.store, h.channel, h.slot, hdepth, h.out, h.events, h.started, h.base⟩, ?_, rfl⟩
    simp only [Suspended.resume, h.channel, h.store]

theorem Agrees.enter (callers : List Suspended) (h : m.Agrees loose base n) (callee : Value)
    (args : List Value) :
    (m.enter limits callers callee args).Above loose base outer
      (n.enter limits (callers ++ outer) callee args) := by
  unfold Machine.enter
  split
  · split
    · exact h.raiseTrouble _
    · rw [h.store]
      exact .running ⟨⟨h.id, rfl, h.channel, h.slot, h.depth, h.out, h.events, h.started, h.base⟩, rfl, rfl⟩
  · split
    · exact h.raiseTrouble _
    · split
      · exact .aborted h
      · simp only [h.store, h.out]
        split
        · refine Agrees.deliver ?_ _
          exact ⟨h.id, rfl, h.channel, h.slot, h.depth, rfl, h.events, h.started, h.base⟩
        · refine Agrees.raiseTrouble ?_ _
          exact ⟨h.id, rfl, h.channel, h.slot, h.depth, rfl, h.events, h.started, h.base⟩
  · exact h.raiseTrouble _

theorem Agrees.call (callers : List Suspended) (h : m.Agrees loose base n)
    (hloose : loose → limits.maxDepth = none) (callee : Value) (args : List Value) :
    (m.call limits callers callee args).Above loose base outer
      (n.call limits (callers ++ outer) callee args) := by
  unfold Machine.call
  dsimp only
  obtain hfree | ⟨hdepth, hpeak⟩ := h.depth
  · rw [hloose hfree]
    refine Agrees.enter _ ?_ _ _
    exact ⟨h.id, h.store, h.channel, h.slot, .inl hfree, h.out, h.events, h.started, h.base⟩
  · rw [hdepth, hpeak]
    split
    · split
      · refine Agrees.raiseTrouble ?_ _
        exact ⟨h.id, h.store, h.channel, h.slot, .inr ⟨rfl, rfl⟩, h.out, h.events, h.started, h.base⟩
      · refine Agrees.enter _ ?_ _ _
        exact ⟨h.id, h.store, h.channel, h.slot, .inr ⟨rfl, rfl⟩, h.out, h.events, h.started, h.base⟩
    · refine Agrees.enter _ ?_ _ _
      exact ⟨h.id, h.store, h.channel, h.slot, .inr ⟨rfl, rfl⟩, h.out, h.events, h.started, h.base⟩

theorem Above.leave (h : m.Above loose base outer n) (hend : outer ≠ [] ∨ base = .call) (v : Value) :
    (m.leave limits v).Above loose base outer (n.leave limits v) := by
  have hinner : ¬ (m.callers.isEmpty ∧ m.base = .program) := by
    rw [h.started]
    exact fun hprogram => nomatch hprogram.2
  have houter : ¬ (n.callers.isEmpty ∧ n.base = .program) := by
    rw [h.callers, h.base]
    rintro ⟨hempty, hprogram⟩
    obtain hne | hcall := hend
    · exact hne (List.append_eq_nil_iff.mp (List.isEmpty_iff.mp hempty)).2
    · cases hcall.symm.trans hprogram
  unfold Machine.leave
  rw [if_neg hinner, if_neg houter, h.slot, h.callers]
  split
  · split
    · exact h.raise _
    · refine Agrees.enter _ ?_ _ _
      exact ⟨h.id, h.store, h.channel, rfl, h.depth, h.out, h.events, h.started, h.base⟩
  · exact h.deliver v

theorem Above.tailCall (h : m.Above loose base outer n) (hend : outer ≠ [] ∨ base = .call)
    (callee : Value) (args : List Value) :
    (m.tailCall limits callee args).Above loose base outer (n.tailCall limits callee args) := by
  unfold Machine.tailCall
  rw [h.slot, h.callers]
  split
  · exact h.raise _
  · refine Above.leave ?_ hend _
    exact ⟨⟨h.id, h.store, h.channel, rfl, h.depth, h.out, h.events, h.started, h.base⟩, h.frame, rfl⟩

theorem Above.signal (h : m.Above loose base outer n) (hend : outer ≠ [] ∨ base = .call)
    (marker : Marker) :
    (m.signal limits marker).Above loose base outer (n.signal limits marker) := by
  unfold Machine.signal
  rw [h.channel, h.callers]
  split
  · exact h.raise _
  · refine Above.leave ?_ hend _
    refine ⟨⟨h.id, h.store, rfl, h.slot, h.depth, h.out, ?_, h.started, h.base⟩, h.frame, rfl⟩
    simp only [note, h.id, h.frame, h.events]

theorem Above.withFrame (h : m.Above loose base outer n) (f : Frame) :
    (Next.running { m with frame := f }).Above loose base outer (.running { n with frame := f }) :=
  .running ⟨⟨h.id, h.store, h.channel, h.slot, h.depth, h.out, h.events, h.started, h.base⟩, rfl, h.callers⟩

theorem Above.dispatch (h : m.Above loose base outer n) (table : DispatchTable) :
    (m.dispatch table).Above loose base outer (n.dispatch table) := by
  unfold Machine.dispatch
  rw [h.channel]
  split
  · simp only [advance, h.frame]
    exact h.withFrame _
  · split
    · exact .aborted h.toAgrees
    · split
      · exact .aborted h.toAgrees
      · dsimp only
        split <;> simp only [note, h.frame, h.store]
        · exact .running ⟨⟨h.id, rfl, rfl, h.slot, h.depth, h.out, h.events, h.started, h.base⟩, rfl,
            h.callers⟩
        · refine .running ⟨⟨h.id, rfl, rfl, h.slot, h.depth, h.out, ?_, h.started, h.base⟩, rfl, h.callers⟩
          simp only [h.id, h.events]

theorem above_exec (h : m.Above loose base outer n) (hloose : loose → limits.maxDepth = none)
    (hend : outer ≠ [] ∨ base = .call) (i : Instruction) :
    (m.exec limits i).Above loose base outer (n.exec limits i) := by
  cases hop : i.op <;> simp only [exec, hop, advance, branchTo, h.frame, h.store]
  case call name count landing =>
    rw [h.callers]
    split
    · exact h.toAgrees.call (_ :: m.callers) hloose _ _
    · exact .aborted h.toAgrees
  case ret =>
    split
    · exact h.leave hend _
    · exact .aborted h.toAgrees
  case signal marker => exact h.signal hend marker
  case dispatch table => exact h.dispatch table
  case tailCall count reuse =>
    split <;> split
    · exact h.tailCall hend _ _
    · exact .aborted h.toAgrees
    · exact h.tailCall hend _ _
    · exact .aborted h.toAgrees
  -- What is left looks at the store and its own frame, which are the same.
  all_goals repeat' split
  all_goals first
    | exact .aborted h.toAgrees
    | exact h.withFrame _
    | exact .running ⟨⟨h.id, rfl, h.channel, h.slot, h.depth, h.out, h.events, h.started, h.base⟩, rfl, h.callers⟩
    | exact h.raiseHere _ _
    | (refine Above.raiseHere ?_ _ _
       exact ⟨⟨h.id, rfl, h.channel, h.slot, h.depth, h.out, h.events, h.started, h.base⟩, rfl, h.callers⟩)

end Machine

/-! ## Steps -/

section Steps

variable {limits : Limits} {loose : Prop} {base : Base} {outer : List Suspended}

theorem Machine.above_self {m : Machine} (hcall : m.base = .call) : m.Above loose .call [] m :=
  ⟨⟨rfl, rfl, rfl, rfl, .inr ⟨rfl, rfl⟩, rfl, rfl, hcall, hcall⟩, rfl, (List.append_nil _).symm⟩

theorem Machine.Above.counted {m n : Machine} (h : m.Above loose base outer n)
    (steps polls steps' polls' : Nat) :
    Machine.Above loose base outer { m with steps := steps, polls := polls }
      { n with steps := steps', polls := polls' } :=
  ⟨⟨h.id, h.store, h.channel, h.slot, h.depth, h.out, h.events, h.started, h.base⟩, h.frame, h.callers⟩

/-- Without a wish of the host to stop, an instruction is run whatever the counters are. -/
theorem step_eq_exec (hcancel : limits.cancelAfter = none) {m : Machine} {ip : Nat} {i : Instruction}
    (hip : m.frame.ip = some ip) (hi : m.frame.unit.code[ip]? = some i) :
    ∃ steps polls, step limits m = { m with steps := steps, polls := polls }.exec limits i := by
  have hgoes : ∀ polls, limits.canceled polls = false := by
    intro polls
    simp only [Limits.canceled, hcancel]
  simp only [step, hip, hi, hgoes]
  split
  · exact ⟨_, _, rfl⟩
  · exact ⟨_, m.polls, rfl⟩

/-- A step does not see the frames beneath the call, until it returns to them. -/
theorem above_step (hcancel : limits.cancelAfter = none) (hloose : loose → limits.maxDepth = none)
    (hend : outer ≠ [] ∨ base = .call) {m n : Machine} (h : m.Above loose base outer n) :
    (step limits m).Above loose base outer (step limits n) := by
  cases hip : m.frame.ip with
  | none =>
    have hip' : n.frame.ip = none := h.frame ▸ hip
    simp only [step, hip, hip']
    exact h.leave hend _
  | some ip =>
    have hip' : n.frame.ip = some ip := h.frame ▸ hip
    cases hi : m.frame.unit.code[ip]? with
    | none =>
      simp only [step, hip, hi, h.frame]
      rw [h.callers]
      exact h.raise _
    | some i =>
      have hi' : n.frame.unit.code[ip]? = some i := h.frame ▸ hi
      -- Without a wish to stop the looks only count, and the counts of the two machines may differ.
      obtain ⟨steps, polls, hm⟩ := step_eq_exec hcancel hip hi
      obtain ⟨steps', polls', hn⟩ := step_eq_exec hcancel hip' hi'
      rw [hm, hn]
      exact Machine.above_exec (h.counted ..) hloose hend i

/-! ## Runs -/

inductive Leads (limits : Limits) : Next → Next → Prop
  | refl (next : Next) : Leads limits next next
  | step {m : Machine} {next : Next} : Leads limits (step limits m) next → Leads limits (.running m) next

namespace Leads

variable {a b c : Next}

theorem trans (hab : Leads limits a b) (hbc : Leads limits b c) : Leads limits a c := by
  induction hab with
  | refl => exact hbc
  | step _ ih => exact .step (ih hbc)

theorem reaches {m m' : Machine} (h : Leads limits (.running m) (.running m')) : Reaches limits m m' := by
  have hgeneral : ∀ {a b : Next}, Leads limits a b → ∀ m m', a = .running m → b = .running m' →
      Reaches limits m m' := by
    intro a b h
    induction h with
    | refl =>
      rintro m m' rfl hb
      cases hb
      exact .refl m
    | @step m₀ b hrest ih =>
      rintro m m' ha hb
      cases ha
      cases hstep : KestrelLang.step limits m₀ with
      | running m₁ => exact .step hstep (ih m₁ m' hstep hb)
      | done m₁ outcome =>
        rw [hstep, hb] at hrest
        cases hrest
  exact hgeneral h m m' rfl rfl

theorem iterate (h : Leads limits a b) {fuel : Nat} {e : Machine × Outcome}
    (hends : iterate limits fuel b = some e) : ∃ fuel', KestrelLang.iterate limits fuel' a = some e := by
  induction h with
  | refl => exact ⟨fuel, hends⟩
  | step _ ih =>
    obtain ⟨fuel', hfuel'⟩ := ih hends
    exact ⟨fuel' + 1, hfuel'⟩

end Leads

theorem iterate_done (limits : Limits) (fuel : Nat) (m : Machine) (outcome : Outcome) :
    iterate limits fuel (.done m outcome) = some (m, outcome) := by
  cases fuel <;> rfl

theorem iterate_unique {fuel fuel' : Nat} {next : Next} {a b : Machine × Outcome}
    (ha : iterate limits fuel next = some a) (hb : iterate limits fuel' next = some b) : a = b := by
  induction fuel generalizing next fuel' with
  | zero =>
    cases next with
    | running m => cases ha
    | done m outcome =>
      rw [iterate_done] at ha hb
      exact Option.some.inj (ha.symm.trans hb)
  | succ fuel ih =>
    cases next with
    | running m =>
      cases fuel' with
      | zero => cases hb
      | succ fuel' => exact ih ha hb
    | done m outcome =>
      rw [iterate_done] at ha hb
      exact Option.some.inj (ha.symm.trans hb)

def Outcome.isInt (n : Int64) : Outcome → Bool
  | .value (.int m) => m == n
  | _ => false

theorem Outcome.eq_of_isInt {n : Int64} {outcome : Outcome} (h : outcome.isInt n) : outcome = .value (.int n) := by
  unfold Outcome.isInt at h
  split at h
  · rw [eq_of_beq h]
  · cases h

variable {fuel : Nat} {next next' : Next}

theorem ends_with_int {n : Int64} (h : (iterate limits fuel next).any (·.2.isInt n)) :
    ∃ m, iterate limits fuel next = some (m, .value (.int n)) := by
  obtain ⟨e, hends, hint⟩ := (Option.any_eq_true _ _).mp h
  exact ⟨e.1, by rw [hends, ← Outcome.eq_of_isInt hint]⟩

theorem iterate_above (hcancel : limits.cancelAfter = none) (hloose : loose → limits.maxDepth = none)
    (hend : outer ≠ [] ∨ base = .call) (habove : next.Above loose base outer next') {m : Machine}
    {outcome : Outcome} (h : iterate limits fuel next = some (m, outcome)) :
    ∃ next'', (Next.done m outcome).Above loose base outer next'' ∧ Leads limits next' next'' := by
  refine iterate_invariant (I := fun next => ∃ next'', next.Above loose base outer next'' ∧ Leads limits next' next'')
    (fun m hm => ?_) ⟨next', habove, .refl next'⟩ h
  obtain ⟨next'', habove, hleads⟩ := hm
  cases habove with
  | running hm => exact ⟨_, above_step hcancel hloose hend hm, hleads.trans (.step (.refl _))⟩

theorem iterate_above_none (hcancel : limits.cancelAfter = none)
    (hloose : loose → limits.maxDepth = none) (hend : outer ≠ [] ∨ base = .call)
    (habove : next.Above loose base outer next') (h : iterate limits fuel next = none) :
    iterate limits fuel next' = none := by
  induction fuel generalizing next next' with
  | zero =>
    cases habove with
    | running => rfl
    | _ => cases h
  | succ fuel ih =>
    cases habove with
    | running hm => exact ih (above_step hcancel hloose hend hm) h
    | _ => cases h

end Steps

end KestrelLang
