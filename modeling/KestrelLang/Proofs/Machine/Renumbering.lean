import KestrelLang.Proofs.Machine.Limits

/-! # Runs and the numbers of their threads

The number of a thread turns up in the events of its runs and nowhere else.

* `Machine.relabel` — the machine on a thread of another number, with other events.
* `relabel_exec`, `step_relabel` — a step does the same under every number.
* `id_step` — a step leaves the number of the thread alone.
* `run_relabel` — runs of a program on new threads of any two numbers end alike, write the same and leave the same
  store. -/

namespace KestrelLang

open KestrelLang.Code

abbrev Machine.relabel (id : Nat) (events : List Event) (m : Machine) : Machine :=
  { m with thread := { m.thread with id := id }, events := events }

def Next.relabel (id : Nat) (events : List Event) : Next → Next
  | .running m => .running (m.relabel id events)
  | .done m outcome => .done (m.relabel id events) outcome

namespace Machine

variable {id : Nat} {events : List Event} {limits : Limits} {m : Machine} {callers : List Suspended}

/-! ## Calls -/

theorem relabel_raiseTrouble (t : Trouble) :
    (m.raiseTrouble callers t).relabel id events = (m.relabel id events).raiseTrouble callers t := by
  cases t <;> rfl

theorem relabel_raiseHere (span : Span) (t : Trouble) :
    (m.raiseHere span t).relabel id events = (m.relabel id events).raiseHere span t := by
  cases t <;> rfl

theorem relabel_deliver (v : Value) :
    (m.deliver callers v).relabel id events = (m.relabel id events).deliver callers v := by
  cases callers <;> rfl

theorem relabel_enter (callee : Value) (args : List Value) :
    (m.enter limits callers callee args).relabel id events =
      (m.relabel id events).enter limits callers callee args := by
  cases callee with
  | sub f =>
    obtain ⟨name, params, closure, code, span⟩ := f
    cases code <;> rfl
  | native name arity impl =>
    simp only [enter]
    by_cases harity : 0 ≤ arity ∧ (args.length : Int) ≠ arity
    · rw [if_pos harity, if_pos harity]
      rfl
    rw [if_neg harity, if_neg harity]
    cases impl with
    | none => rfl
    | some b =>
      dsimp only
      split
      · exact relabel_deliver _
      · exact relabel_raiseTrouble _
  | _ => rfl

theorem relabel_call (callee : Value) (args : List Value) :
    (m.call limits callers callee args).relabel id events =
      (m.relabel id events).call limits callers callee args := by
  unfold call
  cases limits.maxDepth with
  | none => exact relabel_enter callee args
  | some limit =>
    dsimp only
    split
    · rfl
    · exact relabel_enter callee args

theorem relabel_leave (v : Value) :
    (m.leave limits v).relabel id events = (m.relabel id events).leave limits v := by
  unfold leave
  dsimp only [relabel]
  split
  · rfl
  · split
    · split
      · rfl
      · exact relabel_enter _ _
    · exact relabel_deliver v

theorem relabel_tailCall (callee : Value) (args : List Value) :
    (m.tailCall limits callee args).relabel id events = (m.relabel id events).tailCall limits callee args := by
  unfold tailCall
  dsimp only [relabel]
  split
  · rfl
  · exact relabel_leave _

/-! ## Instructions -/

theorem relabel_signal (marker : Marker) :
    ∃ events', (m.signal limits marker).relabel id events' = (m.relabel id events).signal limits marker := by
  unfold signal
  dsimp only [relabel]
  split
  · exact ⟨events, rfl⟩
  · exact ⟨_, relabel_leave _⟩

theorem relabel_dispatch (table : DispatchTable) :
    ∃ events', (m.dispatch table).relabel id events' = (m.relabel id events).dispatch table := by
  unfold dispatch
  dsimp only [relabel]
  split
  · exact ⟨events, rfl⟩
  · split
    · exact ⟨events, rfl⟩
    · split
      · exact ⟨events, rfl⟩
      · split
        · exact ⟨events, rfl⟩
        · exact ⟨_, rfl⟩

/-- Only the events of an instruction tell the number of the thread. -/
theorem relabel_exec (i : Instruction) :
    ∃ events', (m.exec limits i).relabel id events' = (m.relabel id events).exec limits i := by
  cases hop : i.op <;> simp only [exec, hop]
  case signal marker => exact relabel_signal marker
  case dispatch table => exact relabel_dispatch table
  -- No other instruction has an event to tell.
  all_goals refine ⟨events, ?_⟩
  case call name count landing =>
    split
    · exact relabel_call _ _
    · rfl
  case ret =>
    split
    · exact relabel_leave _
    · rfl
  case tailCall count reuse =>
    split
    · split
      · exact relabel_tailCall _ _
      · rfl
    · split
      · exact relabel_tailCall _ _
      · rfl
  case load name =>
    split
    · rfl
    · exact relabel_raiseHere _ _
  case unary op | indexGet | binary op | indexSet =>
    split
    · split
      · rfl
      · exact relabel_raiseHere _ _
    · rfl
  case branchIfFalse ip | branchIfTrue ip | iterNext ip =>
    split
    · split <;> rfl
    · rfl
  case declare | store | dup | dup2 | pop | popResult | makeArray | exitScope | iterInit | iterBind | iterPop =>
    split <;> rfl
  all_goals rfl

end Machine

/-! ## Steps and runs -/

theorem step_relabel (limits : Limits) (id : Nat) (events : List Event) (m : Machine) :
    ∃ events', (step limits m).relabel id events' = step limits (m.relabel id events) := by
  unfold step
  dsimp only [Machine.relabel]
  split
  · exact ⟨events, Machine.relabel_leave _⟩
  · split
    · exact ⟨events, rfl⟩
    · split
      · split
        · exact ⟨events, rfl⟩
        · exact Machine.relabel_exec _
      · exact Machine.relabel_exec _

theorem id_step (limits : Limits) (m : Machine) : (step limits m).machine.thread.id = m.thread.id := by
  obtain ⟨events', hstep⟩ := step_relabel limits m.thread.id m.events m
  have hsame : m.relabel m.thread.id m.events = m := rfl
  rw [hsame] at hstep
  rw [← hstep]
  cases step limits m <;> rfl

theorem forward_relabel (limits : Limits) (id n : Nat) (events : List Event) (next : Next) :
    ∃ events', (next.forward limits n).relabel id events' = (next.relabel id events).forward limits n := by
  induction n generalizing next events with
  | zero => exact ⟨events, rfl⟩
  | succ n ih =>
    cases next with
    | done m outcome => exact ⟨events, rfl⟩
    | running m =>
      obtain ⟨events', hstep⟩ := step_relabel limits id events m
      obtain ⟨events'', hforward⟩ := ih events' (step limits m)
      refine ⟨events'', hforward.trans ?_⟩
      rw [hstep]
      rfl

theorem report_relabel (id : Nat) (events : List Event) (m : Machine) (outcome : Outcome) :
    (Thread.report (m.relabel id events) outcome).outcome = (Thread.report m outcome).outcome ∧
      (Thread.report (m.relabel id events) outcome).out = (Thread.report m outcome).out ∧
      (Thread.report (m.relabel id events) outcome).thread.store = (Thread.report m outcome).thread.store := by
  cases outcome with
  | value v =>
    unfold Thread.report
    dsimp only [Machine.relabel]
    split <;> exact ⟨rfl, rfl, rfl⟩
  | failure f => exact ⟨rfl, rfl, rfl⟩
  | aborted => exact ⟨rfl, rfl, rfl⟩

theorem report_thread (m : Machine) (outcome : Outcome) :
    (Thread.report m outcome).thread.id = m.thread.id ∧
      (Thread.report m outcome).thread.store = m.thread.store := by
  unfold Thread.report
  split <;> exact ⟨rfl, rfl⟩

theorem run_relabel {limits : Limits} {fuel : Nat} {t : Thread} {p : Program} {r : Report}
    (h : t.run limits fuel p = some r) (id : Nat) :
    ∃ r', { t with id := id }.run limits fuel p = some r' ∧ r'.outcome = r.outcome ∧ r'.out = r.out ∧
      r'.thread.store = r.thread.store := by
  obtain ⟨m, outcome, hdone, rfl⟩ := Thread.done_of_finish h
  obtain ⟨events, hforward⟩ := forward_relabel limits id fuel [] (t.startProgram p)
  rw [hdone] at hforward
  exact ⟨_, Thread.finish_of_done hforward.symm, report_relabel id events m outcome⟩

end KestrelLang
