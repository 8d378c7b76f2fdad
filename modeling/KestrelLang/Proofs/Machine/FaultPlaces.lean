import KestrelLang.Host.Interpreter
import KestrelLang.Proofs.Code.Located
import KestrelLang.Proofs.Machine.Failing
import KestrelLang.Proofs.Machine.Needs

/-! # The places of faults

A fault of a program from a text has the place of an instruction of the run that met it. A callee that does not start
has no place of its own: it takes that of the call that the run is inside, however many tail calls came between.
A marker that no scope took has the place of its verb.

* `Next.Amid`, `amid_step` — which callers and which marker a step leaves.
* `Next.InCall`, `Next.in_calls` — whoever waits at a call has made it in the run.
* `Next.registered` — a pending marker was registered by a verb in the run.
* `Machine.Sound.channel_of_aborted` — no run is cut off while a marker of a verb is pending.
* `Thread.RunsTexts` — a thread on which programs from texts were run.
* `Fault.MetAt` — how an instruction accounts for a fault.
* `faults_have_places` — every fault has the place of an instruction that accounts for it. -/

namespace KestrelLang

open KestrelLang.Code

/-! ## Callers and markers -/

/-- A state with no other callers than the given ones, and the given marker pending. -/
def Next.Amid (next : Next) (callers : List Suspended) (channel : Channel) : Prop :=
  match next with
  | .running m => m.callers <:+ callers ∧ m.thread.channel = channel
  | .done m _ => m.thread.channel = channel

/-- The callers of a machine once it has made the call that it is about to make, if it is. -/
def Machine.upper (m : Machine) : List Suspended := ((m.call?).map (·.callers)).getD m.callers

namespace Machine

variable {m : Machine} {limits : Limits} {callers above : List Suspended} {next : Next}

theorem upper_of_call {c : CallRequest} (hc : m.call? = some c) : m.upper = c.callers := by
  rw [upper, hc]
  rfl

theorem callers_suffix_upper (m : Machine) : m.callers <:+ m.upper := by
  cases hc : m.call? with
  | none =>
    rw [upper, hc]
    exact List.suffix_refl _
  | some c =>
    obtain ⟨s, hs⟩ := callers_of_call hc
    rw [upper_of_call hc, hs]
    exact List.suffix_cons ..

theorem waits_of_call {c : CallRequest} (hc : m.call? = some c) :
    ∃ i name count landing rest, m.frame.instruction? = some i ∧ i.op = .call name count landing ∧
      c.callers = ⟨{ m.frame with stack := rest }, landing, i.span⟩ :: m.callers := by
  obtain ⟨i, hi, hc⟩ := Option.bind_eq_some_iff.mp hc
  split at hc
  · split at hc
    · cases hc
      exact ⟨i, _, _, _, _, hi, ‹_›, rfl⟩
    · cases hc
  · cases hc

theorem amid_raiseTrouble (t : Trouble) : (m.raiseTrouble callers t).Amid above m.thread.channel := by
  cases t <;> rfl

theorem amid_raiseHere (span : Span) (t : Trouble) : (m.raiseHere span t).Amid above m.thread.channel := by
  cases t <;> rfl

theorem amid_deliver {v : Value} (h : callers <:+ above) : (m.deliver callers v).Amid above m.thread.channel := by
  cases callers with
  | nil => rfl
  | cons s rest => exact ⟨(List.suffix_cons s rest).trans h, rfl⟩

theorem Entered.amid {callee : Value} {args : List Value} (h : m.Entered limits callers args callee next)
    (hcallers : callers <:+ above) : next.Amid above m.thread.channel := by
  cases h with
  | starts => exact ⟨hcallers, rfl⟩
  | noCode | arity | notCallable | fails => exact amid_raiseTrouble _
  | hollow => rfl
  | delivers => exact amid_deliver hcallers

theorem Called.amid {callee : Value} {args : List Value} (h : m.Called limits callers callee args next)
    (hcallers : callers <:+ above) : next.Amid above m.thread.channel := by
  cases h with
  | refused => exact amid_raiseTrouble _
  | admitted _ hentered => exact hentered.amid hcallers

theorem Left.amid {v : Value} (h : m.Left limits v next) (hcallers : m.callers <:+ above) :
    next.Amid above m.thread.channel := by
  cases h with
  | ended | astray => rfl
  | replaced _ _ _ hentered => exact hentered.amid hcallers
  | delivers => exact amid_deliver hcallers

/-- An instruction adds no caller but the frame that makes a call, and only a verb makes a marker pending. -/
theorem Executed.amid {i : Instruction} (h : m.Executed limits i next) (hi : m.frame.instruction? = some i) :
    ∃ channel, next.Amid m.upper channel ∧
      (channel = m.thread.channel ∨ channel = none ∨ ∃ marker, i.op = .signal marker ∧ channel = some marker) := by
  have hupper := m.callers_suffix_upper
  cases h with
  | within => exact ⟨_, ⟨hupper, rfl⟩, .inl rfl⟩
  | unbound | aborts | collides | occupied => exact ⟨_, rfl, .inl rfl⟩
  | fails => exact ⟨_, amid_raiseHere .., .inl rfl⟩
  | calls hop hpop hcalled =>
    have hmade := upper_of_call (call?_of_fetch hi hop hpop)
    exact ⟨_, hcalled.amid (hmade ▸ List.suffix_refl _), .inl rfl⟩
  | returns _ _ hleft | parks _ _ _ hleft => exact ⟨_, hleft.amid hupper, .inl rfl⟩
  | signals hop _ hleft => exact ⟨_, hleft.amid hupper, .inr (.inr ⟨_, hop, rfl⟩)⟩
  | dispatches _ hpending hcheck =>
    refine ⟨_, ⟨hupper, rfl⟩, ?_⟩
    -- A dispatch point leaves a pending marker, or consumes it.
    obtain hconsumed | ⟨-, hpassed⟩ := Channel.of_check?_eq_some hcheck
    · exact .inr (.inl hconsumed)
    · exact .inl (hpassed.trans hpending.symm)

end Machine

/-- A step adds no caller but the frame that makes a call, and only a verb makes a marker pending. -/
theorem amid_step (limits : Limits) (m : Machine) :
    ∃ channel, (step limits m).Amid m.upper channel ∧
      (channel = m.thread.channel ∨ channel = none ∨
        ∃ i marker, m.frame.instruction? = some i ∧ ¬ m.Stopped limits ∧ i.op = .signal marker ∧
          channel = some marker) := by
  have h := stepped limits m
  generalize step limits m = next at h ⊢
  cases h with
  | ends => exact ⟨_, (Machine.left ..).amid m.callers_suffix_upper, .inl rfl⟩
  | strays | stops => exact ⟨_, rfl, .inl rfl⟩
  | @runs i hi hgoes =>
    have hexecuted := (Machine.executed limits (m.ticked limits.interval) i).amid hi
    obtain ⟨channel, hamid, hsame | hnone | ⟨marker, hop, hmarker⟩⟩ := hexecuted
    · exact ⟨channel, hamid, .inl hsame⟩
    · exact ⟨channel, hamid, .inr (.inl hnone)⟩
    · exact ⟨channel, hamid, .inr (.inr ⟨i, marker, hi, hgoes, hop, hmarker⟩)⟩

/-! ## Runs -/

/-- The run comes to the machine, which runs the instruction. -/
structure Next.Executes (limits : Limits) (start : Next) (m : Machine) (i : Instruction) : Prop where
  reached : ∃ n, start.forward limits n = .running m
  fetched : m.frame.instruction? = some i
  goes : ¬ m.Stopped limits

/-- The machine made the call in the run, which has not come back from it after `n` steps. -/
structure Next.InCall (limits : Limits) (start : Next) (n : Nat) (m : Machine) (c : CallRequest) : Prop where
  call : m.call? = some c
  goes : ¬ m.Stopped limits
  inside : ∃ k < n, start.forward limits k = .running m ∧
    ∀ j, k < j → j ≤ n → ∃ m', start.forward limits j = .running m' ∧ c.callers <:+ m'.callers

namespace Next

variable {limits : Limits} {start : Next} {n : Nat} {m : Machine}

theorem InCall.executes {c : CallRequest} (h : start.InCall limits n m c) :
    ∃ i name count landing rest, start.Executes limits m i ∧ i.op = .call name count landing ∧
      c.callers = ⟨{ m.frame with stack := rest }, landing, i.span⟩ :: m.callers := by
  obtain ⟨k, -, hk, -⟩ := h.inside
  obtain ⟨i, name, count, landing, rest, hi, hop, hcallers⟩ := Machine.waits_of_call h.call
  exact ⟨i, name, count, landing, rest, ⟨⟨k, hk⟩, hi, h.goes⟩, hop, hcallers⟩

theorem goes_of_running {m' : Machine} {c : CallRequest} (hc : m.call? = some c) (h : step limits m = .running m') :
    ¬ m.Stopped limits := by
  intro hstopped
  obtain ⟨i, hi⟩ := Machine.fetch_of_call hc
  cases (Machine.step_of_stopped hi hstopped).symm.trans h

/-- Whoever waits at a call has made it in the run, and the run is still inside it. -/
theorem in_calls (hstart : ∀ m, start = .running m → m.callers = []) {callers : List Suspended}
    (hm : start.forward limits n = .running m) (hne : callers ≠ []) (h : callers <:+ m.callers) :
    ∃ m₁ c, start.InCall limits n m₁ c ∧ c.callers = callers := by
  -- By induction on the steps: whoever waits after a step waited before it, or has just made the call.
  induction n generalizing m with
  | zero =>
    rw [hstart m hm] at h
    exact absurd (List.suffix_nil.mp h) hne
  | succ n ih =>
    cases hn : start.forward limits n with
    | done m' outcome => cases (forward_of_done hn (Nat.le_succ n)).symm.trans hm
    | running m₁ =>
      have hstep : step limits m₁ = .running m := (forward_succ_of_running hn).symm.trans hm
      obtain ⟨channel, hamid, -⟩ := amid_step limits m₁
      rw [hstep] at hamid
      have hupper : callers <:+ m₁.upper := h.trans hamid.1
      have hold : callers <:+ m₁.callers → ∃ m₁ c, start.InCall limits (n + 1) m₁ c ∧ c.callers = callers := by
        intro hbelow
        obtain ⟨m₂, c, hin, rfl⟩ := ih hn hbelow
        obtain ⟨k, hk, hm₂, hinside⟩ := hin.inside
        refine ⟨m₂, c, ⟨hin.call, hin.goes, k, Nat.lt_succ_of_lt hk, hm₂, fun j hkj hj => ?_⟩, rfl⟩
        obtain hj | rfl := Nat.lt_or_eq_of_le hj
        · exact hinside j hkj (Nat.le_of_lt_succ hj)
        · exact ⟨m, hm, h⟩
      cases hc : m₁.call? with
      | none =>
        rw [Machine.upper, hc] at hupper
        exact hold hupper
      | some c =>
        obtain ⟨s, hs⟩ := Machine.callers_of_call hc
        rw [Machine.upper_of_call hc, hs] at hupper
        obtain rfl | hbelow := List.suffix_cons_iff.mp hupper
        · refine ⟨m₁, c, ⟨hc, goes_of_running hc hstep, n, Nat.lt_succ_self n, hn, fun j hnj hj => ?_⟩, hs⟩
          obtain rfl : j = n + 1 := Nat.le_antisymm hj hnj
          exact ⟨m, hm, hs ▸ h⟩
        · exact hold hbelow

theorem registered (hstart : start.machine.thread.channel = none) {marker : Marker}
    (h : (start.forward limits n).machine.thread.channel = some marker) :
    ∃ m i, start.Executes limits m i ∧ i.op = .signal marker := by
  induction n with
  | zero => cases hstart.symm.trans h
  | succ n ih =>
    cases hn : start.forward limits n with
    | done m' outcome =>
      rw [forward_of_done hn (Nat.le_succ n)] at h
      exact ih (hn ▸ h)
    | running m₁ =>
      rw [forward_succ_of_running hn] at h
      obtain ⟨channel, hamid, hchannel⟩ := amid_step limits m₁
      -- The run has the channel that the step left, whether it goes on or not.
      have hend : channel = some marker := by
        cases hstep : step limits m₁ with
        | running m' =>
          rw [hstep] at h hamid
          exact hamid.2.symm.trans h
        | done m' outcome =>
          rw [hstep] at h hamid
          exact hamid.symm.trans h
      obtain hsame | hnone | ⟨i, marker', hi, hgoes, hop, hnew⟩ := hchannel
      · exact ih (hn ▸ hsame.symm.trans hend)
      · cases hnone.symm.trans hend
      · cases hnew.symm.trans hend
        exact ⟨m₁, i, ⟨⟨n, hn⟩, hi, hgoes⟩, hop⟩

end Next

/-! ## Runs that are cut off -/

theorem Marker.Proper.action {marker : Marker} (h : marker.Proper) : marker.kind.action? ≠ none := by
  obtain ⟨verb, hverb⟩ := h.known
  generalize marker.kind = kind at hverb ⊢
  cases verb <;> cases hverb <;> nofun

namespace Machine

variable {m m' : Machine} {limits : Limits}

/-- With a marker of a known kind pending, a run goes on or ends by itself: the frame ends, or it is at a dispatch
    point, which knows what to do with the marker. -/
theorem Sound.not_aborted_of_pending (hm : m.Sound) (hslot : m.thread.trampoline = none) (hclear : m.Clear)
    {marker : Marker} (hpending : m.thread.channel = some marker) (hkind : marker.kind.action? ≠ none) :
    ¬ (step limits m).Aborted := by
  intro haborted
  obtain ⟨i, steps, polls, hi, hexec⟩ := hm.exec_of_aborted hslot haborted
  obtain hempty | hchain := hclear
  · cases hempty.symm.trans hpending
  · obtain hip | ⟨i', table, -, hi', hop, -⟩ := hchain.head
    · simp [Frame.instruction?, hip] at hi
    · obtain rfl : i = i' := Option.some.inj (hi.symm.trans hi')
      simp only [exec, hop] at hexec
      obtain ⟨marker', hmarker', hunknown⟩ := unknown_dispatch (hm.targets hi hop) hexec
      cases hpending.symm.trans hmarker'
      exact hkind hunknown

/-- A run that is cut off leaves no marker, if the markers in it are of known kinds. -/
theorem Sound.channel_of_aborted (hm : m.Sound) (hslot : m.thread.trampoline = none) (hclear : m.Clear)
    (hkind : ∀ marker, m.thread.channel = some marker → marker.kind.action? ≠ none)
    (h : step limits m = .done m' .aborted) : m'.thread.channel = none := by
  have haborted : (step limits m).Aborted := h ▸ trivial
  have hempty : m.thread.channel = none := by
    cases hchannel : m.thread.channel with
    | none => rfl
    | some marker => exact absurd haborted (hm.not_aborted_of_pending hslot hclear hchannel (hkind marker hchannel))
  obtain ⟨channel, hamid, hchannel⟩ := amid_step limits m
  rw [h] at hamid
  obtain hsame | hnone | ⟨i, marker, hi, -, hop, -⟩ := hchannel
  · exact hamid.trans (hsame.trans hempty)
  · exact hamid.trans hnone
  -- A verb ends its frame, which makes room for nobody.
  · obtain ⟨i', steps, polls, hi', hexec⟩ := hm.exec_of_aborted hslot haborted
    obtain rfl : i = i' := Option.some.inj (hi.symm.trans hi')
    simp only [exec, hop] at hexec
    obtain ⟨parked, hparked, -⟩ := hollow_signal hexec
    cases hslot.symm.trans hparked

end Machine

/-! ## Programs from texts -/

def Program.FromText (p : Program) : Prop := ∃ origin source, (compileText origin source).1 = .ok p

/-- A new thread, or one on which programs from texts were run, one after the other and each to its end. -/
inductive Thread.RunsTexts : Thread → Prop
  | new (id : Nat) : RunsTexts (.new id)
  | run {t : Thread} {limits : Limits} {fuel : Nat} {p : Program} {r : Report} :
    RunsTexts t → p.FromText → t.run limits fuel p = some r → RunsTexts r.thread

theorem Program.FromText.compiled {p : Program} (h : p.FromText) :
    ∃ origin m, compile origin m = .ok p ∧ stmtsPlaced m.body := by
  obtain ⟨origin, source, htext⟩ := h
  unfold compileText at htext
  split at htext
  · cases htext
  · rename_i m hm
    refine ⟨origin, m, ?_, Parser.placed_of_parseModule hm⟩
    unfold compileModule at htext
    split at htext
    · cases htext
    · rename_i p' hp'
      cases htext
      exact hp'

theorem Program.FromText.located {p : Program} (h : p.FromText) : ∀ u ∈ p.units, Located u := by
  obtain ⟨origin, m, hp, hm⟩ := h.compiled
  exact fun u hu => located_of_compile hp hm hu

theorem inherits_located : Inherits Located := fun hu hi hop => hu.closure hi hop

namespace Thread.RunsTexts

variable {t : Thread} {p : Program} {limits : Limits} {n : Nat} {m : Machine} {i : Instruction}

theorem stems (h : t.RunsTexts) : t.Stems Located := by
  induction h with
  | new id => exact stems_new id
  | run _ hp hr ih => exact ih.run inherits_located hp.located hr

theorem arises (h : t.RunsTexts) : t.Arises := by
  induction h with
  | new id => exact .new id
  | run _ hp hr ih =>
    obtain ⟨origin, m, hcompile, -⟩ := hp.compiled
    exact ih.run hcompile hr

/-- The states of a run of a program from a text, on a thread that is cleared. -/
theorem steady_forward (h : t.RunsTexts) (ht : t.Cleared) (hp : p.FromText) (limits : Limits) (n : Nat) :
    ((t.startProgram p).forward limits n).Sound ∧ ((t.startProgram p).forward limits n).Clear ∧
      ((t.startProgram p).forward limits n).Level := by
  obtain ⟨origin, tree, hcompile, -⟩ := hp.compiled
  have hstart : Starts limits t (t.startProgram p) := .program hcompile
  exact Next.forward_invariant (P := fun next => next.Sound ∧ next.Clear ∧ next.Level)
    (fun _ hm => ⟨sound_step hm.1, clear_step hm.1 hm.2.1, level_step hm.2.2⟩)
    ⟨hstart.sound h.arises.sound, hstart.clear ht.channel, hstart.level ht.toAtRest⟩ n

/-- A run of a program from a text leaves no marker behind, even if it is cut off. -/
theorem channel_of_aborted (h : t.RunsTexts) (ht : t.Cleared) (hp : p.FromText)
    (hend : (t.startProgram p).forward limits n = .done m .aborted) : m.thread.channel = none := by
  obtain hover | ⟨k, m₁, hm₁, hstep⟩ := Next.last_step hend
  · cases hover
  · have hstates := h.steady_forward ht hp limits k
    rw [hm₁] at hstates
    obtain ⟨hsound, hclear, hlevel⟩ := hstates
    refine hsound.channel_of_aborted hlevel.slot hclear (fun marker hpending => ?_) hstep
    have hmarker : ((t.startProgram p).forward limits k).machine.thread.channel = some marker := by
      rw [hm₁]
      exact hpending
    obtain ⟨m₂, i, hexec, hop⟩ := Next.registered (show (t.startProgram p).machine.thread.channel = none from
      ht.channel) hmarker
    obtain ⟨j, hm₂⟩ := hexec.reached
    have hverb := (h.steady_forward ht hp limits j).1
    rw [hm₂] at hverb
    obtain ⟨ip, -, hcode⟩ := Frame.instruction?_eq_some.mp hexec.fetched
    exact (hverb.frame.unit.proper hcode hop).action

theorem cleared (h : t.RunsTexts) : t.Cleared := by
  induction h with
  | new id => exact ⟨atRest_new id, rfl⟩
  | @run t limits fuel p r ht hp hr ih =>
    obtain ⟨origin, m, hcompile, -⟩ := hp.compiled
    have hsettled := ih.toAtRest.run hcompile hr
    obtain ⟨m', outcome, hend, rfl⟩ := done_of_finish hr
    cases outcome with
    | value v => exact hsettled.cleared (by unfold report; split <;> trivial)
    | failure f => exact hsettled.cleared trivial
    | aborted => exact ⟨hsettled.rest, ht.channel_of_aborted ih hp hend⟩

theorem level (h : t.RunsTexts) (hp : p.FromText) (hm : (t.startProgram p).forward limits n = .running m) :
    m.Level := by
  have hlevel := (h.steady_forward h.cleared hp limits n).2.2
  rw [hm] at hlevel
  exact hlevel

theorem machine_stems (h : t.RunsTexts) (hp : p.FromText)
    (hm : (t.startProgram p).forward limits n = .running m) : m.Stems Located := by
  have hstems := h.stems.forward inherits_located hp.located limits n
  rw [hm] at hstems
  exact hstems

theorem inPlace (h : t.RunsTexts) (hp : p.FromText) (hi : (t.startProgram p).Executes limits m i) :
    InPlace m.frame.unit.origin i := by
  obtain ⟨n, hm⟩ := hi.reached
  obtain ⟨ip, -, hcode⟩ := Frame.instruction?_eq_some.mp hi.fetched
  exact (h.machine_stems hp hm).frame.unit.inPlace hcode

end Thread.RunsTexts

theorem Thread.base_forward (t : Thread) (p : Program) (limits : Limits) (n : Nat) :
    ((t.startProgram p).forward limits n).machine.base = .program :=
  Next.forward_invariant (P := fun next => next.machine.base = .program)
    (fun m hm => (precedes_step limits m).base.trans hm) rfl n

/-! ## The statement -/

/-- How an instruction that a machine of the run is about to run accounts for a fault of the run. It meets the fault
    itself. Or it is a call, and its callee does not start, or else some callee that took the place of it by tail
    calls, while the run is still inside the call. Or it is a verb, and no scope took its marker. -/
inductive Fault.MetAt (limits : Limits) (start : Next) (f : Fault) (m : Machine) (i : Instruction) : Prop
  | operation : m.frame.Meets m.thread.store i.op f.cause → (step limits m).FailsWith f → MetAt limits start f m i
  | call {name : String} {count : Nat} {landing : JumpTarget} {c : CallRequest} :
    i.op = .call name count landing → m.call? = some c → c.callee.RejectsCall limits m.thread m.out c.args f.cause →
      (step limits m).FailsWith f → MetAt limits start f m i
  | tailCall {name : String} {count n : Nat} {landing : JumpTarget} {c : CallRequest} {m₁ : Machine}
      {parked : TailCall Value} :
    i.op = .call name count landing → start.InCall limits n m c → start.forward limits n = .running m₁ →
      m₁.callers = c.callers → m₁.frame.tailCall? = some parked →
      parked.target.Rejects limits m₁.thread.store m₁.out parked.args f.cause → (step limits m₁).FailsWith f →
      MetAt limits start f m i
  | signal {n : Nat} {m₁ : Machine} {v : Value} {marker : Marker} :
    i.op = .signal marker → start.forward limits n = .done m₁ (.value v) → m₁.thread.channel = some marker →
      f = .ofMarker marker → MetAt limits start f m i

theorem Frame.Meets.placed {s : Store} {f : Frame} {i : Instruction} {cause : FaultCause} {origin : String}
    (h : f.Meets s i.op cause) (hi : InPlace origin i) : i.span.Placed := by
  unfold InPlace at hi
  generalize i.op = op at h hi
  cases h with
  | load _ | binary _ _ | indexGet _ _ | indexSet _ _ => exact hi
  | unary _ hresult =>
    obtain rfl | hspan := hi
    · cases hresult
    · exact hspan

/-- A fault that leaves an instruction with a place first has this place. -/
theorem Fault.place_of_unwound {f : Fault} {cause : FaultCause} {site : CallSite} {below : List CallSite}
    (hf : f = .unwound cause (site :: below)) (hsite : site.span.Placed) :
    f.cause = cause ∧ f.origin = site.origin ∧ f.span = site.span := by
  have hnone : ∀ x ∈ ([] : List CallSite), x.span = .zero := List.forall_mem_nil _
  have hplace : f = _ := hf.trans (unwound_of_located cause hnone hsite.ne_zero)
  rw [hplace]
  exact ⟨rfl, rfl, rfl⟩

theorem Thread.fault_of_report_cases {m : Machine} {outcome : Outcome} {f : Fault}
    (h : (Thread.report m outcome).outcome = .failure (.fault f)) :
    outcome = .failure (.fault f) ∨
      ∃ v marker, outcome = .value v ∧ m.thread.channel = some marker ∧ f = .ofMarker marker := by
  unfold Thread.report at h
  split at h
  · cases h
    exact .inr ⟨_, _, rfl, ‹_›, rfl⟩
  · cases h
  · exact .inl h
  · cases h

section Statement

variable {t : Thread} {p : Program} {limits : Limits} {n : Nat} {m : Machine} {f : Fault}

/-- What a step of the run fails with has the place of an instruction. -/
theorem Thread.RunsTexts.place_of_step (ht : t.RunsTexts) (hp : p.FromText)
    (hm : (t.startProgram p).forward limits n = .running m) (h : (step limits m).FailsWith f) :
    ∃ m₁ i, (t.startProgram p).Executes limits m₁ i ∧ i.span.Placed ∧ f.origin = m₁.frame.unit.origin ∧
      f.span = i.span ∧ f.MetAt limits (t.startProgram p) m₁ i := by
  have hlevel := ht.level hp hm
  obtain ⟨hgoes, hfault⟩ := step_fault hlevel (ht.machine_stems hp hm) h
  cases hfault with
  | @operation i cause hi hmeets hf =>
    have hexec : (t.startProgram p).Executes limits m i := ⟨⟨n, hm⟩, hi, hgoes⟩
    have hplaced := hmeets.placed (ht.inPlace hp hexec)
    obtain ⟨rfl, horigin, hspan⟩ := Fault.place_of_unwound hf hplaced
    exact ⟨m, i, hexec, hplaced, horigin, hspan, .operation hmeets h⟩
  | @call c cause hcall hrejects hf =>
    obtain ⟨i, name, count, landing, rest, hi, hop, hcallers⟩ := Machine.waits_of_call hcall
    have hexec : (t.startProgram p).Executes limits m i := ⟨⟨n, hm⟩, hi, hgoes⟩
    have hplaced : i.span.Placed := by simpa only [InPlace, hop] using ht.inPlace hp hexec
    rw [hcallers] at hf
    obtain ⟨rfl, horigin, hspan⟩ := Fault.place_of_unwound hf hplaced
    exact ⟨m, i, hexec, hplaced, horigin, hspan, .call hop hcall hrejects h⟩
  | @tailCall parked cause htail hrejects hf =>
    -- The main chunk parks no tail call, so somebody waits for the frame.
    have hwaiting : m.callers ≠ [] := by
      intro hnobody
      obtain ⟨i, hi, hop, -⟩ := Machine.exec_parks limits htail
      have hbase : m.base = .program := by
        have hstays := t.base_forward p limits n
        rw [hm] at hstays
        exact hstays
      exact hlevel.not_ground hi hop ⟨by rw [hnobody]; rfl, hbase⟩
    have hstart : ∀ m, t.startProgram p = .running m → m.callers = [] := by
      intro m₀ hm₀
      cases hm₀
      rfl
    obtain ⟨m₁, c, hin, hc⟩ := Next.in_calls hstart hm hwaiting (List.suffix_refl _)
    obtain ⟨i, name, count, landing, rest, hexec, hop, hcallers⟩ := hin.executes
    have hplaced : i.span.Placed := by simpa only [InPlace, hop] using ht.inPlace hp hexec
    rw [← hc, hcallers] at hf
    obtain ⟨rfl, horigin, hspan⟩ := Fault.place_of_unwound hf hplaced
    exact ⟨m₁, i, hexec, hplaced, horigin, hspan, .tailCall hop hin hm hc.symm htail hrejects h⟩

theorem Thread.RunsTexts.place_of_marker (ht : t.RunsTexts) (hp : p.FromText) {v : Value} {marker : Marker}
    (hend : (t.startProgram p).forward limits n = .done m (.value v)) (hmarker : m.thread.channel = some marker) :
    ∃ m₁ i, (t.startProgram p).Executes limits m₁ i ∧ i.span.Placed ∧
      (Fault.ofMarker marker).origin = m₁.frame.unit.origin ∧ (Fault.ofMarker marker).span = i.span ∧
      (Fault.ofMarker marker).MetAt limits (t.startProgram p) m₁ i := by
  have hpending : ((t.startProgram p).forward limits n).machine.thread.channel = some marker := by
    rw [hend]
    exact hmarker
  have hempty : (t.startProgram p).machine.thread.channel = none := ht.cleared.channel
  obtain ⟨m₁, i, hexec, hop⟩ := Next.registered hempty hpending
  have hplace := ht.inPlace hp hexec
  simp only [InPlace, hop] at hplace
  obtain ⟨hplaced, hspan, horigin⟩ := hplace
  exact ⟨m₁, i, hexec, hplaced, horigin, hspan, .signal hop hend hmarker rfl⟩

/-- Programs from texts, run one after the other on a thread: if a run ends with a fault, then the fault has a place,
    and its place and the name of its text are those of an instruction that was executed in this very run and that
    accounts for it. -/
theorem faults_have_places (ht : t.RunsTexts) (hp : p.FromText) {fuel : Nat} {r : Report}
    (hr : t.run limits fuel p = some r) (hf : r.outcome = .failure (.fault f)) :
    f.span ≠ .zero ∧ ∃ m i, (t.startProgram p).Executes limits m i ∧ f.origin = m.frame.unit.origin ∧
      f.span = i.span ∧ f.MetAt limits (t.startProgram p) m i := by
  obtain ⟨m', outcome, hend, rfl⟩ := Thread.done_of_finish hr
  have hplace : ∃ m i, (t.startProgram p).Executes limits m i ∧ i.span.Placed ∧ f.origin = m.frame.unit.origin ∧
      f.span = i.span ∧ f.MetAt limits (t.startProgram p) m i := by
    obtain rfl | ⟨v, marker, rfl, hmarker, rfl⟩ := Thread.fault_of_report_cases hf
    · obtain hover | ⟨n, m, hm, hstep⟩ := Next.last_step hend
      · cases hover
      · exact ht.place_of_step hp hm ⟨m', hstep⟩
    · exact ht.place_of_marker hp hend hmarker
  obtain ⟨m, i, hexec, hplaced, horigin, hspan, hmet⟩ := hplace
  exact ⟨hspan ▸ hplaced.ne_zero, m, i, hexec, horigin, hspan, hmet⟩

end Statement

/-! ## A run to look at -/

namespace Relaying

open FirstLine (columns token)

/-- The text `sub{goto &len}()`, in bytes. -/
def source : List UInt8 := [115, 117, 98, 123, 103, 111, 116, 111, 32, 38, 108, 101, 110, 125, 40, 41]

def tokens : List Token :=
  [token (.keyword .subWord) 1 4, token (.punct .lbrace) 4 5, token (.keyword .gotoWord) 5 9,
    token (.punct .amp) 10 11, token (.ident "len") 11 14, token (.punct .rbrace) 14 15,
    token (.punct .lparen) 15 16, token (.punct .rparen) 16 17]

/-- What it is read as: a call of a closure that hands its arguments on to `len`. -/
def script : Module :=
  ⟨[.expr (.call (.closure [] (.mk [.tailCall (.ident "len" (columns 11 14)) [] true (columns 5 14)] (columns 4 15))
    (columns 1 15)) [] (columns 1 17))], columns 1 17⟩

theorem tokenize_source : Lexer.tokenize (Text.decodeUtf8 source) = .ok ⟨tokens, ⟨1, 17⟩⟩ := by
  let name : List Char := ['e', 'n', '\x7d', '(', ')']
  let jump : List Char := ['o', 't', 'o', ' ', '&', 'l'] ++ name
  let text : List Char := ['s', 'u', 'b', '\x7b', 'g'] ++ jump
  have htext : Text.decodeUtf8 source = text := by decide
  have hsub : Lexer.scanToken 's' text.tail = .ok (.keyword .subWord, 3) := by decide +kernel
  have hgoto : Lexer.scanToken 'g' jump = .ok (.keyword .gotoWord, 4) := by decide +kernel
  have hlen : Lexer.scanToken 'l' name = .ok (.ident "len", 3) := by decide +kernel
  have hend : Lexer.scan ⟨1, 17⟩ [] = .ok ⟨[], ⟨1, 17⟩⟩ := Lexer.scan_of_end rfl
  have hcall := Lexer.scan_cons ⟨1, 15⟩ ['(', ')'] rfl rfl (Lexer.scan_cons ⟨1, 16⟩ [')'] rfl rfl hend)
  have hbrace := Lexer.scan_cons ⟨1, 14⟩ ['\x7d', '(', ')'] rfl rfl hcall
  have hname := Lexer.scan_cons ⟨1, 11⟩ ('l' :: name) rfl hlen hbrace
  have hamp := Lexer.scan_cons ⟨1, 9⟩ (' ' :: '&' :: 'l' :: name) rfl rfl hname
  have hjump := Lexer.scan_cons ⟨1, 5⟩ ('g' :: jump) rfl hgoto hamp
  rw [htext]
  exact Lexer.scan_cons ⟨1, 1⟩ text rfl hsub (Lexer.scan_cons ⟨1, 4⟩ ('\x7b' :: 'g' :: jump) rfl rfl hjump)

theorem parse_source : Parser.parseModule "traced" (Text.decodeUtf8 source) = .ok script := by
  unfold Parser.parseModule
  rw [tokenize_source]
  rfl

theorem fromText : (Traced.programOf script).FromText := by
  refine ⟨"traced", source, ?_⟩
  rw [compileText, parse_source]
  rfl

/-- A builtin that a closure calls in its own place is given too few arguments, and the fault has the place of the call
    of the closure. -/
theorem relayed_builtin_has_place_of_call :
    ∃ r f, (Thread.new 0).RunsTexts ∧ (Traced.programOf script).FromText ∧
      (Thread.new 0).run Traced.limits 20 (Traced.programOf script) = some r ∧
      r.outcome = .failure (.fault f) ∧ f = ⟨.arity "len" 1 0, columns 1 17, "traced", []⟩ ∧
      f.span ≠ .zero ∧ ∃ m i, ((Thread.new 0).startProgram (Traced.programOf script)).Executes Traced.limits m i ∧
        f.origin = m.frame.unit.origin ∧ f.span = i.span ∧
        f.MetAt Traced.limits ((Thread.new 0).startProgram (Traced.programOf script)) m i := by
  have hfault : Traced.fault?
      (((Thread.new 0).startProgram (Traced.programOf script)).forward Traced.limits 20) =
      some ⟨.arity "len" 1 0, columns 1 17, "traced", []⟩ := by decide +kernel
  obtain ⟨m', hend⟩ := Traced.done_of_fault? hfault
  have hr := Thread.finish_of_done hend
  exact ⟨_, _, .new 0, fromText, hr, rfl, rfl, faults_have_places (.new 0) fromText hr rfl⟩

end Relaying

end KestrelLang
