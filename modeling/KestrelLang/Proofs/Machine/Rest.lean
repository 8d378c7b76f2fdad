import KestrelLang.Proofs.Code.TailCalls
import KestrelLang.Proofs.Machine.Pending

/-! # Machines between calls

* `openCalls`, `outermost` — how many calls are open, and the unit at the bottom of them.
* `Machine.Level` — the depth counts the open calls, no tail call is parked, and the main chunk parks none.
* `level_step` — every step keeps the level; a run that ends with a value ends at the depth zero, and no run is cut
  off with a tail call parked.
* `Frame.tailCall?` — the tail call that a frame is about to park; `exec_tailCall` says that its callee
  starts in the frame's place.
* `Thread.AtRest`, `Thread.Cleared` — a thread between runs; every run that returns leaves a cleared one.
* `Relayed.script` — a script with a tail call. -/

namespace KestrelLang

open KestrelLang.Code

/-! ## Open calls -/

/-- The calls that are open: one for each suspended frame, and the host's own if it made one. -/
def openCalls (base : Base) (callers : List Suspended) : Nat :=
  callers.length + if base = .call then 1 else 0

/-- The unit of the outermost frame; `u` is the unit of the current one. -/
def outermost (u : CodeUnit) : List Suspended → CodeUnit
  | [] => u
  | s :: rest => outermost s.frame.unit rest

/-- A callee may start on behalf of the callers: under a main chunk there is a caller, and the main
    chunk parks no tail call. -/
def Grounded (base : Base) (callers : List Suspended) : Prop :=
  base = .program → ∃ s rest, callers = s :: rest ∧
    NoTailCall (outermost s.frame.unit rest).code.toList

theorem openCalls_cons (base : Base) (s : Suspended) (callers : List Suspended) :
    openCalls base (s :: callers) = openCalls base callers + 1 := by
  simp only [openCalls, List.length_cons]
  omega

/-- The depth counts the open calls, no tail call is parked, and the outermost frame parks none if it is
    that of a main chunk. -/
structure Machine.Level (m : Machine) : Prop where
  depth : m.thread.depth = openCalls m.base m.callers
  slot : m.thread.trampoline = none
  ground : m.base = .program → NoTailCall (outermost m.frame.unit m.callers).code.toList

/-- A run goes on at its level, or it ended with a value and no call is open, or it was cut off and no tail
    call is parked. A failed run is cleared anyway. -/
def Next.Level : Next → Prop
  | .running m => m.Level
  | .done m (.value _) => m.thread.depth = 0 ∧ m.thread.trampoline = none
  | .done _ (.failure _) => True
  | .done m .aborted => m.thread.trampoline = none

namespace Machine

variable {m : Machine} {limits : Limits} {callers : List Suspended} {next : Next}

theorem Level.grounded (hm : m.Level) (h : ¬ (m.callers.isEmpty ∧ m.base = .program)) :
    Grounded m.base m.callers := by
  intro hbase
  cases hcallers : m.callers with
  | nil => exact absurd ⟨by rw [hcallers]; rfl, hbase⟩ h
  | cons s rest =>
    have hground := hm.ground hbase
    rw [hcallers] at hground
    exact ⟨s, rest, rfl, hground⟩

theorem Level.grounded_cons (hm : m.Level) {s : Suspended} (hs : s.frame.unit = m.frame.unit) :
    Grounded m.base (s :: m.callers) := by
  intro hbase
  exact ⟨s, m.callers, rfl, hs ▸ hm.ground hbase⟩

theorem level_raiseTrouble (hslot : m.thread.trampoline = none) (t : Trouble) :
    (m.raiseTrouble callers t).Level := by
  cases t with
  | abort => exact hslot
  | _ => trivial

theorem level_raiseHere (hslot : m.thread.trampoline = none) (span : Span) (t : Trouble) :
    (m.raiseHere span t).Level := by
  cases t with
  | abort => exact hslot
  | _ => trivial

/-- The level concerns neither the environment nor the stacks of the frame. -/
theorem Level.ofFrame (hm : m.Level) {f : Frame} (hf : f.unit = m.frame.unit) :
    { m with frame := f }.Level := by
  refine ⟨hm.depth, hm.slot, fun hbase => ?_⟩
  have hground := hm.ground hbase
  rw [← hf] at hground
  exact hground

/-! ## Calls -/

theorem level_deliver {v : Value} (hdepth : m.thread.depth = openCalls m.base callers)
    (hslot : m.thread.trampoline = none) (hground : Grounded m.base callers) : (m.deliver callers v).Level := by
  cases callers with
  | nil =>
    refine ⟨?_, hslot⟩
    cases hbase : m.base with
    -- A frame of a run of a whole program always has the main chunk below it.
    | program =>
      obtain ⟨s, rest, hcallers, -⟩ := hground hbase
      cases hcallers
    | call =>
      rw [hbase] at hdepth
      dsimp only
      rw [hdepth]
      rfl
  | cons s rest =>
    rw [openCalls_cons] at hdepth
    refine ⟨?_, hslot, fun hbase => ?_⟩
    · dsimp only
      omega
    · obtain ⟨s', rest', hcallers, hunit⟩ := hground hbase
      cases hcallers
      dsimp only
      split
      · rw [Frame.unit_jump]
        exact hunit
      · exact hunit

theorem Entered.level {callee : Value} {args : List Value} (h : m.Entered limits callers args callee next)
    (hdepth : m.thread.depth = openCalls m.base callers) (hslot : m.thread.trampoline = none)
    (hground : Grounded m.base callers) : next.Level := by
  cases h with
  | starts =>
    refine ⟨hdepth, hslot, fun hbase => ?_⟩
    obtain ⟨s, rest, rfl, hunit⟩ := hground hbase
    exact hunit
  | noCode | arity | notCallable | fails =>
    refine level_raiseTrouble ?_ _
    exact hslot
  | hollow => exact hslot
  | delivers => exact level_deliver hdepth hslot hground

theorem Called.level {callee : Value} {args : List Value} (h : m.Called limits callers callee args next)
    (hdepth : m.thread.depth + 1 = openCalls m.base callers) (hslot : m.thread.trampoline = none)
    (hground : Grounded m.base callers) : next.Level := by
  cases h with
  | refused =>
    refine level_raiseTrouble ?_ _
    exact hslot
  | admitted _ hentered => exact hentered.level hdepth hslot hground

theorem Left.level {v : Value} (h : m.Left limits v next) (hm : m.Level) : next.Level := by
  cases h with
  | ended hcallers hbase =>
    refine ⟨?_, hm.slot⟩
    rw [hm.depth, hcallers, hbase]
    rfl
  | astray => trivial
  | replaced _ _ hparked => cases hm.slot.symm.trans hparked
  | delivers hend => exact level_deliver hm.depth hm.slot (hm.grounded hend)

theorem tailCall_eq_enter (hslot : m.thread.trampoline = none)
    (hend : ¬ (m.callers.isEmpty ∧ m.base = .program)) (callee : Value) (args : List Value) :
    m.tailCall limits callee args = m.enter limits m.callers callee args := by
  obtain ⟨thread, frame, callers, base, steps, polls, out, events⟩ := m
  obtain ⟨id, store, channel, trampoline, depth, peak⟩ := thread
  obtain rfl : trampoline = none := hslot
  simp only [tailCall, Trampoline.park?, leave, if_neg hend, Value.isTailCalled, if_true]

/-! ## Steps -/

theorem Level.not_ground (hm : m.Level) {i : Instruction} (hi : m.frame.instruction? = some i)
    (hop : isTailCall i.op = true) : ¬ (m.callers.isEmpty ∧ m.base = .program) := by
  rintro ⟨hcallers, hbase⟩
  obtain ⟨ip, -, hcode⟩ := Frame.instruction?_eq_some.mp hi
  have hground := hm.ground hbase
  rw [List.isEmpty_iff.mp hcallers] at hground
  have hnone := hground i (Array.mem_toList_iff.mpr (Array.mem_of_getElem? hcode))
  rw [hop] at hnone
  cases hnone

theorem Executed.level {i : Instruction} (h : m.Executed limits i next) (hm : m.Level)
    (hi : m.frame.instruction? = some i) : next.Level := by
  cases h with
  | within _ hunit =>
    have hlevel := hm.ofFrame hunit
    exact ⟨hlevel.depth, hlevel.slot, hlevel.ground⟩
  | unbound | fails =>
    refine level_raiseHere ?_ _ _
    exact hm.slot
  | aborts => exact hm.slot
  | collides | occupied => trivial
  | calls _ _ hcalled =>
    refine hcalled.level ?_ hm.slot (hm.grounded_cons rfl)
    rw [openCalls_cons, hm.depth]
  | returns _ _ hleft => exact hleft.level hm
  | signals _ _ hleft => exact hleft.level ⟨hm.depth, hm.slot, hm.ground⟩
  | @dispatches _ _ _ _ target =>
    have hlevel := hm.ofFrame (m.frame.unit_jump m.thread.store target)
    exact ⟨hlevel.depth, hlevel.slot, hlevel.ground⟩
  | parks hop _ _ hleft =>
    have hend := hm.not_ground hi (by rw [hop]; rfl)
    exact (hleft.entered hm.slot hend).level hm.depth hm.slot (hm.grounded hend)

theorem Level.counted (hm : m.Level) (steps polls : Nat) :
    { m with steps := steps, polls := polls }.Level :=
  ⟨hm.depth, hm.slot, hm.ground⟩

end Machine

theorem level_step {limits : Limits} {m : Machine} (hm : m.Level) : (step limits m).Level := by
  have h := stepped limits m
  generalize step limits m = next at h ⊢
  cases h with
  | ends => exact (Machine.left ..).level hm
  | strays | stops => trivial
  | runs hi => exact (Machine.executed ..).level (hm.counted _ _) hi

theorem Reaches.level {limits : Limits} {m m₁ : Machine} (h : Reaches limits m m₁) (hm : m.Level) :
    m₁.Level :=
  h.invariant (I := Next.Level) (fun _ => level_step) hm

theorem level_iterate {limits : Limits} {fuel : Nat} {next : Next} {m : Machine} {outcome : Outcome}
    (hnext : next.Level) (h : iterate limits fuel next = some (m, outcome)) :
    (Next.done m outcome).Level :=
  iterate_invariant (fun _ => level_step) hnext h

/-! ## Tail calls -/

namespace Machine

variable {m : Machine} {limits : Limits}

theorem exec_parks (limits : Limits) {c : TailCall Value} (hc : m.frame.tailCall? = some c) :
    ∃ i, m.frame.instruction? = some i ∧ isTailCall i.op = true ∧
      ∀ steps polls, { m with steps := steps, polls := polls }.exec limits i =
        { m with steps := steps, polls := polls }.tailCall limits c.target c.args := by
  obtain ⟨i, hi, hc⟩ := Option.bind_eq_some_iff.mp hc
  split at hc
  · rename_i count reuse hop
    refine ⟨i, hi, by rw [hop]; rfl, fun steps polls => ?_⟩
    simp only [exec, hop]
    -- Where `tailCall?` finds a call, the instruction finds the same callee and arguments.
    cases reuse with
    | true =>
      rw [if_pos rfl] at hc ⊢
      obtain ⟨callee, hcallee, rfl⟩ := Option.map_eq_some_iff.mp hc
      cases hstack : m.frame.stack with
      | nil =>
        rw [hstack] at hcallee
        cases hcallee
      | cons v rest =>
        rw [hstack] at hcallee
        cases hcallee
        rfl
    | false =>
      rw [if_neg Bool.false_ne_true] at hc ⊢
      cases hpop : popMany? count m.frame.stack with
      | none =>
        rw [hpop] at hc
        cases hc
      | some popped =>
        rw [hpop] at hc
        obtain ⟨args, _ | ⟨callee, rest⟩⟩ := popped <;> cases hc
        rfl
  · cases hc

theorem exec_tailCall (hm : m.Level) {c : TailCall Value} (hc : m.frame.tailCall? = some c) :
    ∃ i, m.frame.instruction? = some i ∧
      m.exec limits i =
        { m with thread := { m.thread with trampoline := some c } }.leave limits .tailCalled ∧
      m.exec limits i = m.enter limits m.callers c.target c.args := by
  obtain ⟨i, hi, hop, hexec⟩ := exec_parks limits hc
  refine ⟨i, hi, (hexec m.steps m.polls).trans ?_,
    (hexec m.steps m.polls).trans (tailCall_eq_enter hm.slot (hm.not_ground hi hop) _ _)⟩
  unfold tailCall
  rw [hm.slot]
  rfl

end Machine

/-! ## Threads between runs -/

/-- No call is open on the thread, and no tail call is parked. -/
structure Thread.AtRest (t : Thread) : Prop where
  depth : t.depth = 0
  slot : t.trampoline = none

/-- The thread is at rest, and no marker is pending. -/
structure Thread.Cleared (t : Thread) : Prop extends t.AtRest where
  channel : t.channel = none

/-- The run came back to its host, with a value or a failure; it was not cut off. -/
def Outcome.Returned : Outcome → Prop
  | .value _ | .failure _ => True
  | .aborted => False

instance : DecidablePred Outcome.Returned
  | .value _ | .failure _ => .isTrue trivial
  | .aborted => .isFalse id

namespace Thread

variable {t : Thread} {limits : Limits} {fuel : Nat} {r : Report}

theorem atRest_new (id : Nat) : (Thread.new id).AtRest := ⟨rfl, rfl⟩

theorem level_startProgram (ht : t.AtRest) {origin : String} {m : Module} {p : Program}
    (hp : compile origin m = .ok p) : (t.startProgram p).Level :=
  ⟨ht.depth, ht.slot, fun _ => (codeOf_main hp).1.noTailCall (codeOf_main hp).2⟩

theorem level_startCall (ht : t.AtRest) (limits : Limits) (callee : Value) (args : List Value) :
    (t.startCall limits callee args).Level := by
  refine (Machine.called ..).level ?_ ht.slot nofun
  rw [show (t.machine .call).thread.depth = 0 from ht.depth]
  rfl

/-- The thread that a run leaves behind is at rest, and if the run returned, then it is cleared. -/
structure Settled (r : Report) : Prop where
  rest : r.thread.AtRest
  cleared : r.outcome.Returned → r.thread.Cleared

theorem settled_report {m : Machine} {outcome : Outcome} (h : (Next.done m outcome).Level) :
    Settled (report m outcome) := by
  cases outcome with
  | value v =>
    unfold report
    cases hchannel : m.thread.channel with
    | none => exact ⟨⟨h.1, h.2⟩, fun _ => ⟨⟨h.1, h.2⟩, hchannel⟩⟩
    | some marker => exact ⟨⟨h.1, h.2⟩, fun _ => ⟨⟨h.1, h.2⟩, rfl⟩⟩
  | failure f => exact ⟨⟨rfl, rfl⟩, fun _ => ⟨⟨rfl, rfl⟩, rfl⟩⟩
  | aborted => exact ⟨⟨rfl, h⟩, False.elim⟩

theorem settled_finish {next : Next} (hnext : next.Level) (h : finish limits fuel next = some r) :
    Settled r := by
  obtain ⟨⟨m, outcome⟩, hm, rfl⟩ := Option.map_eq_some_iff.mp h
  exact settled_report (level_iterate hnext hm)

theorem AtRest.run (ht : t.AtRest) {origin : String} {m : Module} {p : Program}
    (hp : compile origin m = .ok p) (h : t.run limits fuel p = some r) : Settled r :=
  settled_finish (level_startProgram ht hp) h

theorem AtRest.call (ht : t.AtRest) {name : String} {callee : Value} {args : List Value}
    (hname : t.store.get? name globals = some callee) (h : t.call limits fuel name args = some r) :
    Settled r := by
  rw [Thread.call, hname] at h
  exact settled_finish (level_startCall ht limits callee args) h

/-- A call of a name that is not bound leaves the thread as it is. -/
theorem AtRest.of_call (ht : t.AtRest) {name : String} {args : List Value}
    (h : t.call limits fuel name args = some r) : r.thread.AtRest := by
  cases hname : t.store.get? name globals with
  | none =>
    rw [Thread.call, hname] at h
    cases h
    exact ht
  | some callee => exact (ht.call hname h).rest

/-- Whatever hosts do, no call is open between runs, and no tail call is parked. -/
theorem Arises.atRest (h : t.Arises) : t.AtRest := by
  induction h with
  | new id => exact atRest_new id
  | run _ hp hr ih => exact (ih.run hp hr).rest
  | call _ _ hr ih => exact ih.of_call hr
  | load _ _ ih | define _ _ ih | newArray _ _ ih | setArray _ _ ih | signal _ _ ih =>
    exact ⟨ih.depth, ih.slot⟩

end Thread

theorem Starts.level {limits : Limits} {t : Thread} {next : Next} (h : Starts limits t next)
    (ht : t.AtRest) : next.Level := by
  cases h with
  | program hp => exact Thread.level_startProgram ht hp
  | call _ _ => exact Thread.level_startCall ht ..

theorem Reachable.level {limits : Limits} {t : Thread} {m : Machine} (h : Reachable limits t m)
    (ht : t.AtRest) : m.Level := by
  obtain ⟨m₀, hstart, hreach⟩ := h
  exact hreach.level (hstart.level ht)

/-! ## A run to look at -/

namespace Relayed

open Escape (place callOf limits)

/-- A script whose closure tail calls another one: `sub { goto sub { return 7 } }()`. -/
def script : Module :=
  ⟨[callOf [.tailCall (.closure [] (.mk [.ret (.int 7 place) place] place) place) [] false place]],
    place⟩

def program : Program :=
  match compile "relayed" script with
  | .ok p => p
  | .error _ => default

theorem compile_relayed : compile "relayed" script = .ok program := rfl

def after? (n : Nat) : Option Machine := ((Thread.new 0).startProgram program).after limits n

def after (n : Nat) : Machine := (after? n).getD default

theorem reaches_after {n : Nat} (h : (after? n).isSome) :
    ∃ m₀, (Thread.new 0).startProgram program = .running m₀ ∧ Reaches limits m₀ (after n) := by
  obtain ⟨m, hm⟩ := Option.isSome_iff_exists.mp h
  refine ⟨_, rfl, Next.reaches_after (n := n) ?_⟩
  rw [after, hm]
  exact hm

end Relayed

end KestrelLang
