import Mathlib.Data.List.Forall2
import Mathlib.Data.List.Nodup
import KestrelLang.Proofs.Host.Pool
import KestrelLang.Proofs.Machine.Cancellation

/-! # Jobs side by side

* `Pool.AsAlone`, `Pool.Tracks` — a job ended as its run alone does, or is where that run would be.
* `Pool.Orderly` — so are all jobs of a pool, on threads of their own.
* `forward_wish` — a run that sees the wish of the pool's host is a run whose own host begins to wish then.
* `Orderly.touch`, `Orderly.move`, `Orderly.play` — one move, and from it every schedule, keeps a pool orderly.
* `parallel_runs_do_not_interfere` — every schedule gives the results and the texts of runs alone. -/

namespace KestrelLang

open KestrelLang.Code

namespace Pool

variable {options : Options} {orders : List Order} {workers : Int} {s s' : Pool} {k : Nat} {x y : Slot}

/-! ## Runs alone -/

/-- The pool says about the job what its run alone gives: the name of the job, the value or the failure of the run, the
    text that it wrote, and the store that it left. The run may have a host that wishes to stop too, if the host of
    the pool did. A job without a program has failed, and nothing was written. -/
structure AsAlone (s : Pool) (order : Order) (result : JobResult) : Prop where
  name : result.name = order.job.name
  missing : order.job.program = none →
    result.outcome = .failure (.plain "interpreter: missing program") ∧ s.texts order.writer = ""
  run : ∀ p, order.job.program = some p → ∃ wish fuel, (s.canceled = false → wish = none) ∧
    ∀ id, ∃ r, (Thread.new id).run (s.limits wish order) fuel p = some r ∧
      result.outcome = r.contained.outcome ∧ s.texts order.writer = r.out ∧ s.memory result.thread = r.thread.store

def Tracks (s : Pool) (x : Slot) : Prop :=
  match x.progress with
  | .waiting => s.texts x.order.writer = ""
  | .accepted => x.result.name = x.order.job.name ∧ s.texts x.order.writer = ""
  | .running m => x.result.name = x.order.job.name ∧ ∃ p n, x.order.job.program = some p ∧
    ((Thread.new m.thread.id).startProgram p).forward (s.limits none x.order) n = .running (s.resume x m)
  | .ended => s.AsAlone x.order x.result

/-- The pool runs these orders: every job is where its run alone would be, and no two jobs have the same thread. -/
structure Orderly (options : Options) (orders : List Order) (s : Pool) : Prop where
  options : s.interpreter.options = options
  orders : s.slots.map Slot.order = orders
  tracks : ∀ x ∈ s.slots, s.Tracks x
  counted : ∀ x ∈ s.slots, ∀ id ∈ x.thread?, id ≤ s.interpreter.threads
  apart : ∀ {j k : Nat} {x y : Slot}, s.slots[j]? = some x → s.slots[k]? = some y →
    ∀ id ∈ x.thread?, id ∈ y.thread? → j = k

theorem Tracks.frame (h : s.Tracks x) (htext : s'.texts x.order.writer = s.texts x.order.writer)
    (hmemory : ∀ id ∈ x.thread?, s'.memory id = s.memory id)
    (hoptions : s'.interpreter.options = s.interpreter.options)
    (hcanceled : s'.canceled = false → s.canceled = false) : s'.Tracks x := by
  have hlimits : ∀ wish, s'.limits wish x.order = s.limits wish x.order := fun wish => by
    rw [limits, limits, hoptions]
  unfold Tracks at h ⊢
  cases hx : x.progress with
  | waiting =>
    rw [hx] at h
    exact htext.trans h
  | accepted =>
    rw [hx] at h
    exact ⟨h.1, htext.trans h.2⟩
  | running m =>
    rw [hx] at h
    obtain ⟨hname, p, n, hp, hforward⟩ := h
    refine ⟨hname, p, n, hp, ?_⟩
    have hm : s'.memory m.thread.id = s.memory m.thread.id := hmemory _ (by rw [Slot.thread?, hx]; rfl)
    rw [hlimits, hforward, resume, resume, hm, htext]
  | ended =>
    rw [hx] at h
    have hm : s'.memory x.result.thread = s.memory x.result.thread := hmemory _ (by rw [Slot.thread?, hx]; rfl)
    refine ⟨h.name, fun hp => ?_, fun p hp => ?_⟩
    · rw [htext]
      exact h.missing hp
    · obtain ⟨wish, fuel, hwish, hrun⟩ := h.run p hp
      refine ⟨wish, fuel, fun hc => hwish (hcanceled hc), ?_⟩
      rw [hlimits, htext, hm]
      exact hrun

theorem Orderly.other_thread (h : s.Orderly options orders) (ht : s.Touches s' k x y) {j : Nat} {z : Slot}
    (hz : s.slots[j]? = some z) (hj : j ≠ k) {id : Nat} (hid : id ∈ z.thread?) : id ∉ y.thread? := by
  intro hidy
  obtain ⟨hsame, -⟩ | ⟨hnew, -⟩ := ht.thread
  · rw [hsame] at hidy
    exact hj (h.apart hz ht.here id hid hidy)
  · have hle := h.counted z (List.mem_of_getElem? hz) id hid
    rw [hnew] at hidy
    cases hidy
    omega

theorem Orderly.other_writer (h : s.Orderly options orders) (hwriters : (orders.map Order.writer).Nodup)
    {j : Nat} {z : Slot} (hx : s.slots[k]? = some x) (hz : s.slots[j]? = some z) (hj : j ≠ k) :
    z.order.writer ≠ x.order.writer := by
  intro hsame
  rw [← h.orders, List.map_map] at hwriters
  have hlt : j < (s.slots.map (Order.writer ∘ Slot.order)).length := by
    rw [List.length_map]
    exact (List.getElem?_eq_some_iff.mp hz).1
  refine hj ((List.getElem?_inj hlt hwriters).mp ?_)
  rw [List.getElem?_map, List.getElem?_map, hz, hx]
  exact congrArg some hsame

/-- A move that touches one slot keeps the pool orderly, if the job of that slot is where its run alone would be. -/
theorem Orderly.touch (h : s.Orderly options orders) (hwriters : (orders.map Order.writer).Nodup)
    (ht : s.Touches s' k x y) (hy : s'.Tracks y) : s'.Orderly options orders := by
  constructor
  · exact ht.options.trans h.options
  · exact ht.orders.trans h.orders
  · intro z hz
    obtain ⟨j, hj⟩ := List.mem_iff_getElem?.mp hz
    obtain ⟨-, rfl⟩ | ⟨hne, hz⟩ := ht.slot_cases hj
    · exact hy
    -- Another job has another writer and another thread, and nothing else of the pool matters to it.
    · exact (h.tracks z (List.mem_of_getElem? hz)).frame (ht.texts _ (h.other_writer hwriters ht.here hz hne))
        (fun id hid => ht.memory id (h.other_thread ht hz hne hid)) ht.options (fun hc => ht.canceled ▸ hc)
  · intro z hz id hid
    obtain ⟨j, hj⟩ := List.mem_iff_getElem?.mp hz
    obtain ⟨hsame, hcount⟩ | ⟨hnew, hcount⟩ := ht.thread <;> rw [hcount] <;>
      obtain ⟨-, rfl⟩ | ⟨-, hz⟩ := ht.slot_cases hj
    · exact h.counted x (List.mem_of_getElem? ht.here) id (hsame ▸ hid)
    · exact h.counted z (List.mem_of_getElem? hz) id hid
    · rw [hnew] at hid
      cases hid
      exact Nat.le_refl _
    · exact Nat.le_succ_of_le (h.counted z (List.mem_of_getElem? hz) id hid)
  · intro j₁ j₂ z₁ z₂ h₁ h₂ id hid₁ hid₂
    obtain ⟨rfl, rfl⟩ | ⟨hne₁, hz₁⟩ := ht.slot_cases h₁ <;>
      obtain ⟨rfl, rfl⟩ | ⟨hne₂, hz₂⟩ := ht.slot_cases h₂
    · rfl
    · exact absurd hid₁ (h.other_thread ht hz₂ hne₂ hid₂)
    · exact absurd hid₂ (h.other_thread ht hz₁ hne₁ hid₁)
    · exact h.apart hz₁ hz₂ id hid₁ hid₂

end Pool

/-! ## Steps of a job -/

section Jobs

variable {limits : Limits} {first : Next} {m : Machine} {n : Nat}

/-- A host that begins to wish to stop at a machine leaves all states before it as they are. -/
theorem forward_cut (hsteps : first.machine.steps = 0) (hpolls : first.machine.polls = 0)
    (hm : first.forward limits.free n = .running m) : first.forward (limits.cut m.polls) n = .running m := by
  have htime : first.machine.OnTime limits.interval m.polls := by
    constructor
    · rw [hsteps, hpolls, Nat.zero_div]
    · rw [hpolls]
      exact Nat.zero_le _
  obtain ⟨hsame, -⟩ | ⟨k, m', f, hstopped, -, hend⟩ := same_or_stopped htime n
  · exact hsame.trans hm
  exfalso
  -- Stopped before that machine, the run would have looked once more on the way to it.
  by_cases hk : k < n
  · have hasked := hstopped.polls_after hk
    rw [hm] at hasked
    exact Nat.lt_irrefl _ hasked
  · have hsame := hstopped.same n (Nat.le_of_not_lt hk)
    rw [hend, hm] at hsame
    cases hsame

/-- A step with a wish to stop is the step without it, or it ends the run as a host would that begins to wish now. -/
theorem step_wish (limits : Limits) (m : Machine) :
    step (limits.cut 0) m = step limits.free m ∨
      (∃ outcome, step (limits.cut 0) m = .done (m.ticked limits.interval) outcome) ∧
        step (limits.cut 0) m = step (limits.cut m.polls) m := by
  by_cases hstopped : m.frame.instruction?.isSome ∧ m.Stopped (limits.cut 0)
  · obtain ⟨i, hi⟩ := Option.isSome_iff_exists.mp hstopped.1
    have hstopped' : m.Stopped (limits.cut m.polls) := ⟨hstopped.2.1, decide_eq_true (Nat.lt_succ_self m.polls)⟩
    refine .inr ⟨⟨_, Machine.step_of_stopped hi hstopped.2⟩, ?_⟩
    rw [Machine.step_of_stopped hi hstopped.2, Machine.step_of_stopped hi hstopped']
    rfl
  · refine .inl (Machine.step_congr rfl rfl (fun hsome => ?_) fun c _ _ => Machine.call_congr rfl rfl _ _)
    exact iff_of_false (fun h => hstopped ⟨hsome, h⟩) not_stopped_free

/-- One more step of a run that was not stopped so far, with or without a wish to stop: a run alone comes to the same
    state, under a host that never wishes to stop unless the step is the last one. -/
theorem forward_wish (limits : Limits) (hsteps : first.machine.steps = 0) (hpolls : first.machine.polls = 0)
    (hm : first.forward limits.free n = .running m) (canceled : Bool) :
    ∃ wish, (canceled = false → wish = none) ∧
      first.forward { limits with cancelAfter := wish } (n + 1) =
        step { limits with cancelAfter := if canceled then some 0 else none } m ∧
      (wish = none ∨ ∃ m' outcome,
        step { limits with cancelAfter := if canceled then some 0 else none } m = .done m' outcome) := by
  have hfree := Next.forward_succ_of_running hm
  cases canceled with
  | false => exact ⟨none, fun _ => rfl, hfree, .inl rfl⟩
  | true =>
    obtain hsame | ⟨⟨outcome, hdone⟩, hcut⟩ := step_wish limits m
    · exact ⟨none, fun _ => rfl, hfree.trans hsame.symm, .inl rfl⟩
    · have hforward := Next.forward_succ_of_running (forward_cut hsteps hpolls hm)
      exact ⟨some m.polls, Bool.noConfusion, hforward.trans hcut.symm, .inr ⟨_, outcome, hdone⟩⟩

theorem Report.contained_congr {r r' : Report} (h : r'.outcome = r.outcome) :
    r'.contained.outcome = r.contained.outcome := by
  obtain ⟨thread, outcome, steps, polls, out, events⟩ := r
  obtain ⟨thread', outcome', steps', polls', out', events'⟩ := r'
  subst h
  cases outcome' <;> rfl

end Jobs

namespace Pool

variable {options : Options} {orders : List Order} {workers : Int} {s s' : Pool} {k : Nat} {x y : Slot}

theorem tracks_accept (h : s.Tracks x) (hwaiting : x.progress = .waiting) :
    Tracks { s with slots := s.slots.set k x.accept } x.accept := by
  rw [Tracks, hwaiting] at h
  exact ⟨rfl, h⟩

theorem resume_eq {m : Machine} (htext : s.texts x.order.writer = m.out)
    (hmemory : s.memory m.thread.id = m.thread.store) : s.resume x m = m := by
  rw [resume, htext, hmemory]

section After

variable {p : Program} {id fuel : Nat} {wish : Option Nat}

/-- A run that ended with the memory and the writer of a job ended as a run alone, on a thread of whatever number. -/
theorem asAlone_close {m : Machine} {outcome : Outcome} (hname : x.result.name = x.order.job.name)
    (hp : x.order.job.program = some p) (hwish : s.canceled = false → wish = none)
    (hdone : ((Thread.new id).startProgram p).forward (s.limits wish x.order) fuel = .done m outcome)
    (htext : s.texts x.order.writer = m.out) (hmemory : s.memory m.thread.id = m.thread.store) :
    s.AsAlone x.order (x.close (Thread.report m outcome)).result where
  name := hname
  missing hnone := by cases hnone.symm.trans hp
  run p' hp' := by
    cases hp.symm.trans hp'
    refine ⟨wish, fuel, hwish, fun id' => ?_⟩
    -- Alone, the job might have got a thread of another number, which only its events tell.
    obtain ⟨r, hrun, houtcome, hout, hstore⟩ := run_relabel (t := Thread.new id) (Thread.finish_of_done hdone) id'
    refine ⟨r, hrun, (Report.contained_congr houtcome).symm, ?_, ?_⟩
    · rw [htext, hout, (report_counts m outcome).2.2]
    · rw [hstore, (report_thread m outcome).2, ← hmemory]
      exact congrArg s.memory (report_thread m outcome).1

/-- A job is where its run alone would be if that run came to the same state, with nothing in memory and at the writer
    but what the state has. -/
theorem tracks_after {next : Next} (hname : x.result.name = x.order.job.name) (hp : x.order.job.program = some p)
    (hwish : s.canceled = false → wish = none)
    (hnext : ((Thread.new id).startProgram p).forward (s.limits wish x.order) fuel = next)
    (hends : wish = none ∨ ∃ m outcome, next = .done m outcome) (hid : next.machine.thread.id = id)
    (htext : s.texts x.order.writer = next.machine.out)
    (hmemory : s.memory next.machine.thread.id = next.machine.thread.store) : s.Tracks (x.after next) := by
  cases next with
  | done m outcome => exact asAlone_close hname hp hwish hnext htext hmemory
  | running m =>
    -- A run that goes on has not seen the wish, so it still is the run of a host without one.
    obtain rfl | ⟨_, _, hdone⟩ := hends
    · obtain rfl : m.thread.id = id := hid
      have hresume : s.resume x m = m := resume_eq htext hmemory
      exact ⟨hname, p, fuel, hp, hnext.trans (congrArg Next.running hresume.symm)⟩
    · cases hdone

end After

theorem tracks_start (h : s.Tracks x) (haccepted : x.progress = .accepted) :
    (s.start k x).Tracks (x.start s.interpreter.spawn.1) := by
  rw [Tracks, haccepted] at h
  obtain ⟨hname, htext⟩ := h
  have hmemory : (s.start k x).memory s.interpreter.spawn.1.id =
      (x.order.job.program.elim s.interpreter.spawn.1 s.interpreter.spawn.1.load).store := Function.update_self ..
  unfold Slot.start
  cases hp : x.order.job.program with
  | none =>
    refine ⟨hname, fun _ => ⟨rfl, htext⟩, fun p hp' => ?_⟩
    cases hp.symm.trans hp'
  | some p =>
    rw [hp] at hmemory
    have hfirst : (s.interpreter.spawn.1.startProgram p).forward ((s.start k x).limits none x.order) 0 =
        s.interpreter.spawn.1.startProgram p := rfl
    exact tracks_after hname hp (fun _ => rfl) hfirst (.inl rfl) rfl htext hmemory

theorem tracks_work (h : s.Tracks x) {m : Machine} (hm : x.progress = .running m) :
    (s.work k x m).Tracks (x.after (step (s.limits s.wish x.order) (s.resume x m))) := by
  rw [Tracks, hm] at h
  obtain ⟨hname, p, n, hp, hforward⟩ := h
  obtain ⟨wish, hwish, hnext, hends⟩ := forward_wish (s.limits none x.order) rfl rfl hforward s.canceled
  have hid : (step (s.limits s.wish x.order) (s.resume x m)).machine.thread.id = m.thread.id := id_step ..
  refine tracks_after hname hp hwish hnext hends hid (Function.update_self ..) ?_
  rw [hid]
  exact Function.update_self ..

/-! ## Schedules -/

theorem orderly_opened (i : Interpreter) (orders : List Order) : (opened i orders).Orderly i.options orders := by
  have hopened : ∀ x ∈ (opened i orders).slots, ∃ order, x = .opened order := by
    intro x hx
    obtain ⟨order, -, rfl⟩ := List.mem_map.mp hx
    exact ⟨order, rfl⟩
  constructor
  · rfl
  · simp [opened, Function.comp_def, Slot.opened]
  · intro x hx
    obtain ⟨order, rfl⟩ := hopened x hx
    rfl
  · intro x hx id hid
    obtain ⟨order, rfl⟩ := hopened x hx
    cases hid
  · intro j k x y hx hy id hid
    obtain ⟨order, rfl⟩ := hopened x (List.mem_of_getElem? hx)
    cases hid

theorem Orderly.move (h : s.Orderly options orders) (hwriters : (orders.map Order.writer).Nodup) {a : Move}
    (hmove : s.move workers a = some s') : s'.Orderly options orders := by
  have htracks : ∀ {k x}, s.slots[k]? = some x → s.Tracks x := fun hx => h.tracks _ (List.mem_of_getElem? hx)
  obtain ⟨k, x, -, hx, hwaiting, -, rfl⟩ | ⟨k, x, -, hx, haccepted, rfl⟩ | ⟨k, x, m, -, hx, hm, rfl⟩ | ⟨-, rfl⟩ :=
    move_cases hmove
  · exact h.touch hwriters (touches_accept hx hwaiting) (tracks_accept (htracks hx) hwaiting)
  · exact h.touch hwriters (touches_start hx) (tracks_start (htracks hx) haccepted)
  · exact h.touch hwriters (touches_work hx hm) (tracks_work (htracks hx) hm)
  · refine ⟨h.options, h.orders, fun x hx => ?_, h.counted, h.apart⟩
    exact (h.tracks x hx).frame rfl (fun _ _ => rfl) rfl Bool.noConfusion

theorem Orderly.play (h : s.Orderly options orders) (hwriters : (orders.map Order.writer).Nodup)
    {schedule : List Move} (hplay : s.play workers schedule = some s') : s'.Orderly options orders :=
  play_invariant (fun hs hmove => hs.move hwriters hmove) h hplay

end Pool

/-- Jobs that run side by side do not interfere. Whatever the number of workers, in whatever order the jobs take their
    steps, and whether or not they share their programs: if they write to different writers and all end, there is one
    result for every job, in the order of the jobs, with the name of the job and with the value or the failure that
    a run of its program alone gives, on a thread of any number; its writer holds what that run writes, and the memory
    of its thread what that run leaves. The host of that run never wishes to stop unless the host of the pool does. A
    job without a program fails by itself. -/
theorem parallel_runs_do_not_interfere (i : Interpreter) (workers : Int) (orders : List Order)
    (hwriters : (orders.map Order.writer).Nodup) {schedule : List Move} {s : Pool}
    (hplay : (Pool.opened i orders).play workers schedule = some s) (hended : ∀ x ∈ s.slots, x.ended) :
    s.interpreter.options = i.options ∧ (s.canceled = true ↔ .cancel ∈ schedule) ∧
      List.Forall₂ s.AsAlone orders s.results := by
  have h := (Pool.orderly_opened i orders).play hwriters hplay
  refine ⟨h.options, ?_, ?_⟩
  · rw [Pool.canceled_play hplay]
    simp [Pool.opened]
  · rw [← h.orders, Pool.results, List.forall₂_map_left_iff, List.forall₂_map_right_iff, List.forall₂_same]
    intro x hx
    have htracks := h.tracks x hx
    rw [Pool.Tracks, Slot.ended_iff.mp (hended x hx)] at htracks
    exact htracks

/-! ## A schedule to look at -/

namespace Greetings

open Escape (place)

/-- A script that binds a global and writes it: `word = "hi"; say(word)`. -/
def script : Module :=
  ⟨[.expr (.assign .assign (.ident "word" place) (.str "hi" place) place),
    .expr (.call (.ident "say" place) [.ident "word" place] place)], place⟩

def program : Program :=
  match compile "greetings" script with
  | .ok p => p
  | .error _ => default

def orders : List Order :=
  [⟨⟨"first", some program, none⟩, 4⟩, ⟨⟨"second", some program, none⟩, 2⟩, ⟨⟨"third", none, none⟩, 3⟩]

/-- Two workers take turns with the first two jobs, and the third job waits until one of them is free. -/
def schedule : List Move :=
  [.accept, .accept, .start 1, .start 0] ++ (List.replicate 9 [Move.work 0, .work 1]).flatten ++ [.accept, .start 2]

def pool? : Option Pool := (Pool.opened (.new ⟨0, 0, 0⟩) orders).play 2 schedule

theorem all_end : pool?.any fun s => s.slots.all Slot.ended ∧ s.texts 4 = "hi\n" ∧ s.texts 2 = "hi\n" := by
  decide +kernel

end Greetings

/-- Both greetings are written as if there were no other one, and the job without a program is in nobody's way. -/
theorem greetings_do_not_interfere :
    ∃ s, (Pool.opened (.new ⟨0, 0, 0⟩) Greetings.orders).play 2 Greetings.schedule = some s ∧
      (∀ x ∈ s.slots, x.ended) ∧ s.texts 4 = "hi\n" ∧ s.texts 2 = "hi\n" ∧
      List.Forall₂ s.AsAlone Greetings.orders s.results := by
  obtain ⟨s, hplay, hs⟩ := (Option.any_eq_true _ _).mp Greetings.all_end
  obtain ⟨hall, hfirst, hsecond⟩ := of_decide_eq_true hs
  have hended : ∀ x ∈ s.slots, x.ended := List.all_eq_true.mp hall
  obtain ⟨-, -, halone⟩ := parallel_runs_do_not_interfere _ 2 Greetings.orders (by decide) hplay hended
  exact ⟨s, hplay, hended, hfirst, hsecond, halone⟩

end KestrelLang
