import Mathlib.Logic.Function.Basic
import KestrelLang.Host.Session
import KestrelLang.Proofs.Machine.Renumbering

/-! # Pools of jobs

A pool runs jobs on threads of their own, instruction by instruction and in any order. The threads share the
interpreter, the memory, the writers, the list of results and the host's wish to stop.

* `Order`, `JobResult`, `Slot` — a job, what a pool says about it, and how far it is.
* `Pool`, `Pool.move`, `Pool.play` — a pool, what may happen next in it, and a schedule.
* `Pool.Touches` — one slot changes, and nothing is written but what belongs to its job.
* `move_cases` — what a move does.
* `busy_play`, `exists_move` — no more jobs are active than there are workers, and a pool is never stuck. -/

namespace KestrelLang

/-! ## Pools -/

/-- A job with the number of the writer that its program writes to. -/
structure Order where
  job : Job
  writer : Nat

/-- What a pool says about a job. What a value refers to is in the memory of the thread. -/
structure JobResult where
  name : String
  outcome : Outcome
  thread : Nat

inductive Progress where
  | waiting
  | accepted
  | running (m : Machine)
  | ended

structure Slot where
  order : Order
  progress : Progress
  result : JobResult

namespace Slot

def opened (order : Order) : Slot := ⟨order, .waiting, ⟨"", .value .absent, 0⟩⟩

def accept (x : Slot) : Slot :=
  { x with progress := .accepted, result := { x.result with name := x.order.job.name } }

/-- The job has ended. A run that asked for what no machine can give leaves no value. -/
def close (x : Slot) (r : Report) : Slot :=
  { x with
    progress := .ended
    result := { x.result with outcome := r.contained.outcome, thread := r.thread.id } }

def after (x : Slot) : Next → Slot
  | .running m => { x with progress := .running m }
  | .done m outcome => x.close (Thread.report m outcome)

/-- The job starts on a new thread; without a program it has ended. -/
def start (x : Slot) (t : Thread) : Slot :=
  match x.order.job.program with
  | some p => x.after (t.startProgram p)
  | none => x.close t.runNothing

def waits (x : Slot) : Bool :=
  match x.progress with
  | .waiting => true
  | _ => false

def active (x : Slot) : Bool :=
  match x.progress with
  | .accepted | .running _ => true
  | _ => false

def ended (x : Slot) : Bool :=
  match x.progress with
  | .ended => true
  | _ => false

def thread? (x : Slot) : Option Nat :=
  match x.progress with
  | .running m => some m.thread.id
  | .ended => some x.result.thread
  | _ => none

end Slot

structure Pool where
  interpreter : Interpreter
  slots : List Slot
  /-- The environments and arrays of every thread. -/
  memory : Nat → Store
  /-- What was written to every writer. -/
  texts : Nat → String
  /-- The host wishes to stop. -/
  canceled : Bool

/-- What may happen next in a pool: a worker takes the next job that waits, an accepted job starts, a running job
    takes a step, or the host wishes to stop. -/
inductive Move where
  | accept
  | start (k : Nat)
  | work (k : Nat)
  | cancel

def usualWorkers : Nat := 2147483647

def poolSize (workers : Int) : Nat := if workers ≤ 0 then usualWorkers else workers.toNat

namespace Pool

/-- A pool in which all jobs wait and nothing was written. -/
def opened (i : Interpreter) (orders : List Order) : Pool :=
  ⟨i, orders.map Slot.opened, fun _ => .empty, fun _ => "", false⟩

def results (s : Pool) : List JobResult := s.slots.map Slot.result

def busy (s : Pool) : Nat := s.slots.countP Slot.active

/-- The bounds of a run whose host wishes to stop from some look on. -/
def limits (s : Pool) (wish : Option Nat) (order : Order) : Limits :=
  s.interpreter.options.limits wish order.job.outLimit

def wish (s : Pool) : Option Nat := if s.canceled then some 0 else none

def resume (s : Pool) (x : Slot) (m : Machine) : Machine :=
  { m with
    thread := { m.thread with store := s.memory m.thread.id }
    out := s.texts x.order.writer }

def start (s : Pool) (k : Nat) (x : Slot) : Pool :=
  let t := s.interpreter.spawn.1
  -- The subs of the program are bound before the first step.
  let loaded := x.order.job.program.elim t t.load
  { s with
    interpreter := s.interpreter.spawn.2
    slots := s.slots.set k (x.start t)
    memory := Function.update s.memory t.id loaded.store }

def work (s : Pool) (k : Nat) (x : Slot) (m : Machine) : Pool :=
  let next := step (s.limits s.wish x.order) (s.resume x m)
  -- All that the step wrote goes back to where other jobs could see it.
  { s with
    slots := s.slots.set k (x.after next)
    memory := Function.update s.memory m.thread.id next.machine.thread.store
    texts := Function.update s.texts x.order.writer next.machine.out }

def move (workers : Int) (s : Pool) : Move → Option Pool
  | .accept =>
    (s.slots.findIdx? Slot.waits).bind fun k => s.slots[k]?.bind fun x =>
      if s.busy < poolSize workers then some { s with slots := s.slots.set k x.accept } else none
  | .start k => s.slots[k]?.bind fun x =>
    match x.progress with
    | .accepted => some (s.start k x)
    | _ => none
  | .work k => s.slots[k]?.bind fun x =>
    match x.progress with
    | .running m => some (s.work k x m)
    | _ => none
  | .cancel => some { s with canceled := true }

/-- The pool after a schedule, if all its moves are possible. -/
def play (workers : Int) : List Move → Pool → Option Pool
  | [], s => some s
  | a :: rest, s => (s.move workers a).bind (play workers rest)

end Pool

/-! ## What a move writes -/

/-- The only slot that changes is number `k`, from `x` to `y`. The writers and the memory of the other jobs stay as they
    are, and a thread that the job did not have before is new. -/
structure Pool.Touches (s s' : Pool) (k : Nat) (x y : Slot) : Prop where
  here : s.slots[k]? = some x
  slots : s'.slots = s.slots.set k y
  order : y.order = x.order
  texts : ∀ w ≠ x.order.writer, s'.texts w = s.texts w
  memory : ∀ id ∉ y.thread?, s'.memory id = s.memory id
  thread : (y.thread? = x.thread? ∧ s'.interpreter.threads = s.interpreter.threads) ∨
    (y.thread? = some (s.interpreter.threads + 1) ∧ s'.interpreter.threads = s.interpreter.threads + 1)
  options : s'.interpreter.options = s.interpreter.options
  canceled : s'.canceled = s.canceled

namespace Slot

variable {x : Slot}

theorem waits_iff : x.waits = true ↔ x.progress = .waiting := by
  unfold waits
  split <;> simp_all

theorem ended_iff : x.ended = true ↔ x.progress = .ended := by
  unfold ended
  split <;> simp_all

theorem active_iff : x.active = true ↔ x.progress = .accepted ∨ ∃ m, x.progress = .running m := by
  unfold active
  split <;> simp_all

theorem order_after (x : Slot) (next : Next) : (x.after next).order = x.order := by
  cases next <;> rfl

theorem order_start (x : Slot) (t : Thread) : (x.start t).order = x.order := by
  unfold start
  split
  · exact order_after x _
  · rfl

theorem thread?_after (x : Slot) (next : Next) : (x.after next).thread? = some next.machine.thread.id := by
  cases next with
  | running m => rfl
  | done m outcome => exact congrArg some (report_thread m outcome).1

theorem thread?_start (x : Slot) (t : Thread) : (x.start t).thread? = some t.id := by
  unfold start
  split
  · exact thread?_after x _
  · rfl

end Slot

namespace Pool

variable {workers : Int} {s s' : Pool} {k : Nat} {x y : Slot}

theorem Touches.slot_cases (h : s.Touches s' k x y) {j : Nat} {z : Slot} (hz : s'.slots[j]? = some z) :
    j = k ∧ z = y ∨ j ≠ k ∧ s.slots[j]? = some z := by
  rw [h.slots] at hz
  by_cases hj : j = k
  · subst hj
    rw [List.getElem?_set_self (List.getElem?_eq_some_iff.mp h.here).1] at hz
    exact .inl ⟨rfl, (Option.some.inj hz).symm⟩
  · rw [List.getElem?_set_ne (Ne.symm hj)] at hz
    exact .inr ⟨hj, hz⟩

theorem Touches.orders (h : s.Touches s' k x y) : s'.slots.map Slot.order = s.slots.map Slot.order := by
  obtain ⟨hlt, rfl⟩ := List.getElem?_eq_some_iff.mp h.here
  rw [h.slots, List.map_set, h.order, ← List.map_set, List.set_getElem_self]

theorem touches_accept (hx : s.slots[k]? = some x) (hwaiting : x.progress = .waiting) :
    s.Touches { s with slots := s.slots.set k x.accept } k x x.accept where
  here := hx
  slots := rfl
  order := rfl
  texts _ _ := rfl
  memory _ _ := rfl
  thread := by
    refine .inl ⟨?_, rfl⟩
    rw [Slot.thread?, Slot.thread?, hwaiting]
    rfl
  options := rfl
  canceled := rfl

theorem touches_start (hx : s.slots[k]? = some x) : s.Touches (s.start k x) k x (x.start s.interpreter.spawn.1) where
  here := hx
  slots := rfl
  order := x.order_start _
  texts _ _ := rfl
  memory id hid := by
    rw [x.thread?_start] at hid
    exact Function.update_of_ne (fun h => hid (by rw [h]; rfl)) _ _
  thread := .inr ⟨x.thread?_start _, rfl⟩
  options := rfl
  canceled := rfl

theorem touches_work (hx : s.slots[k]? = some x) {m : Machine} (hm : x.progress = .running m) :
    s.Touches (s.work k x m) k x (x.after (step (s.limits s.wish x.order) (s.resume x m))) where
  here := hx
  slots := rfl
  order := x.order_after _
  texts _ hw := Function.update_of_ne hw _ _
  memory id hid := by
    rw [x.thread?_after, id_step] at hid
    exact Function.update_of_ne (fun h => hid (by rw [h]; rfl)) _ _
  thread := by
    refine .inl ⟨?_, rfl⟩
    rw [x.thread?_after, id_step, Slot.thread?, hm]
    rfl
  options := rfl
  canceled := rfl

theorem move_cases {a : Move} (h : s.move workers a = some s') :
    (∃ k x, a = .accept ∧ s.slots[k]? = some x ∧ x.progress = .waiting ∧ s.busy < poolSize workers ∧
      s' = { s with slots := s.slots.set k x.accept }) ∨
    (∃ k x, a = .start k ∧ s.slots[k]? = some x ∧ x.progress = .accepted ∧ s' = s.start k x) ∨
    (∃ k x m, a = .work k ∧ s.slots[k]? = some x ∧ x.progress = .running m ∧ s' = s.work k x m) ∨
    (a = .cancel ∧ s' = { s with canceled := true }) := by
  cases a with
  | accept =>
    obtain ⟨k, hk, h⟩ := Option.bind_eq_some_iff.mp h
    obtain ⟨x, hx, h⟩ := Option.bind_eq_some_iff.mp h
    obtain ⟨hfree, h⟩ := Option.ite_none_right_eq_some.mp h
    obtain ⟨hlt, hwaits, -⟩ := List.findIdx?_eq_some_iff_getElem.mp hk
    rw [(List.getElem?_eq_some_iff.mp hx).2] at hwaits
    exact .inl ⟨k, x, rfl, hx, Slot.waits_iff.mp hwaits, hfree, (Option.some.inj h).symm⟩
  | start k =>
    obtain ⟨x, hx, h⟩ := Option.bind_eq_some_iff.mp h
    split at h
    · exact .inr (.inl ⟨k, x, rfl, hx, ‹_›, (Option.some.inj h).symm⟩)
    · cases h
  | work k =>
    obtain ⟨x, hx, h⟩ := Option.bind_eq_some_iff.mp h
    split at h
    · exact .inr (.inr (.inl ⟨k, x, _, rfl, hx, ‹_›, (Option.some.inj h).symm⟩))
    · cases h
  | cancel => exact .inr (.inr (.inr ⟨rfl, (Option.some.inj h).symm⟩))

theorem play_invariant {P : Pool → Prop} (hmove : ∀ {s s' a}, P s → s.move workers a = some s' → P s') (hs : P s)
    {schedule : List Move} (hplay : s.play workers schedule = some s') : P s' := by
  induction schedule generalizing s with
  | nil =>
    cases hplay
    exact hs
  | cons a rest ih =>
    obtain ⟨s₁, hfirst, hrest⟩ := Option.bind_eq_some_iff.mp hplay
    exact ih (hmove hs hfirst) hrest

theorem canceled_play {schedule : List Move} (hplay : s.play workers schedule = some s') :
    s'.canceled = true ↔ s.canceled = true ∨ .cancel ∈ schedule := by
  induction schedule generalizing s with
  | nil =>
    cases hplay
    simp
  | cons a rest ih =>
    obtain ⟨s₁, hmove, hrest⟩ := Option.bind_eq_some_iff.mp hplay
    rw [ih hrest, List.mem_cons]
    obtain ⟨k, x, rfl, -, -, -, rfl⟩ | ⟨k, x, rfl, -, -, rfl⟩ | ⟨k, x, m, rfl, -, -, rfl⟩ | ⟨rfl, rfl⟩ :=
      move_cases hmove
    · simp
    · simp [start]
    · simp [work]
    · simp

/-! ## Workers -/

theorem poolSize_pos (workers : Int) : 0 < poolSize workers := by
  unfold poolSize usualWorkers
  split <;> omega

theorem busy_set_of_active (hx : s.slots[k]? = some x) (hactive : x.active = true) (y : Slot) :
    (s.slots.set k y).countP Slot.active ≤ s.busy := by
  obtain ⟨hlt, hk⟩ := List.getElem?_eq_some_iff.mp hx
  have hpos : 0 < s.slots.countP Slot.active := List.countP_pos_iff.mpr ⟨x, List.mem_of_getElem? hx, hactive⟩
  rw [List.countP_set hlt, hk, if_pos hactive, busy]
  split <;> omega

theorem busy_play {i : Interpreter} {orders : List Order} {schedule : List Move}
    (hplay : (opened i orders).play workers schedule = some s) : s.busy ≤ poolSize workers := by
  refine play_invariant (P := fun s => s.busy ≤ poolSize workers) (fun {s s' a} hs hmove => ?_) ?_ hplay
  · obtain ⟨k, x, -, hx, hwaiting, hfree, rfl⟩ | ⟨k, x, -, hx, haccepted, rfl⟩ | ⟨k, x, m, -, hx, hm, rfl⟩ | ⟨-, rfl⟩ :=
      move_cases hmove
    -- Only accepting a job makes one more active, and then a worker is free.
    · obtain ⟨hlt, hk⟩ := List.getElem?_eq_some_iff.mp hx
      unfold busy at hfree ⊢
      rw [List.countP_set hlt]
      split <;> split <;> omega
    · exact Nat.le_trans (busy_set_of_active hx (Slot.active_iff.mpr (.inl haccepted)) _) hs
    · exact Nat.le_trans (busy_set_of_active hx (Slot.active_iff.mpr (.inr ⟨m, hm⟩)) _) hs
    · exact hs
  · have hnone : (opened i orders).busy = 0 := by
      simp [busy, opened, Slot.opened, Slot.active, List.countP_map, Function.comp_def]
    rw [hnone]
    exact Nat.zero_le _

theorem exists_move (h : ∃ x ∈ s.slots, ¬ x.ended) : ∃ a s', a ≠ .cancel ∧ s.move workers a = some s' := by
  by_cases hbusy : ∃ x ∈ s.slots, x.active = true
  · obtain ⟨x, hx, hactive⟩ := hbusy
    obtain ⟨k, hk⟩ := List.mem_iff_getElem?.mp hx
    obtain haccepted | ⟨m, hm⟩ := Slot.active_iff.mp hactive
    · exact ⟨.start k, s.start k x, by simp, by simp [move, hk, haccepted]⟩
    · exact ⟨.work k, s.work k x m, by simp, by simp [move, hk, hm]⟩
  · -- All workers are free, and a job that has neither ended nor started waits.
    have hfree : s.busy = 0 := List.countP_eq_zero.mpr fun x hx hactive => hbusy ⟨x, hx, hactive⟩
    obtain ⟨x, hx, hended⟩ := h
    have hwaits : x.waits = true := by
      cases hprogress : x.progress with
      | waiting => exact Slot.waits_iff.mpr hprogress
      | accepted => exact absurd ⟨x, hx, Slot.active_iff.mpr (.inl hprogress)⟩ hbusy
      | running m => exact absurd ⟨x, hx, Slot.active_iff.mpr (.inr ⟨m, hprogress⟩)⟩ hbusy
      | ended => exact absurd (Slot.ended_iff.mpr hprogress) hended
    have hsome : (s.slots.findIdx? Slot.waits).isSome := by
      rw [List.findIdx?_isSome]
      exact List.any_eq_true.mpr ⟨x, hx, hwaits⟩
    obtain ⟨k, hk⟩ := Option.isSome_iff_exists.mp hsome
    obtain ⟨hlt, -, -⟩ := List.findIdx?_eq_some_iff_getElem.mp hk
    refine ⟨.accept, { s with slots := s.slots.set k s.slots[k].accept }, by simp, ?_⟩
    rw [move, hk, Option.bind_some, List.getElem?_eq_getElem hlt, Option.bind_some, hfree]
    exact if_pos (poolSize_pos workers)

end Pool

end KestrelLang
