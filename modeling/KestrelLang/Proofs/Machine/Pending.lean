import KestrelLang.Proofs.Machine.Reach

/-! # Pending markers

* `Outcome.Collides` — a marker was registered while another one was pending.
* `Next.Quiet` — no marker is pending, and none has met another.
* `Machine.Executed.quiet` — with an empty channel only a verb makes a marker pending.
* `Machine.Clear` — a pending marker finds the frame on a chain of dispatch points.
* `clear_step`, `Reachable.clear` — every step and every run keeps it so. -/

namespace KestrelLang

open KestrelLang.Code

/-! ## Targets -/

/-- The address of a target; there is none outside the frame. -/
def JumpTarget.ip? : JumpTarget → Option Nat
  | .exit => none
  | .to ip _ _ => some ip

namespace Frame

@[simp] theorem ip_jump (f : Frame) (s : Store) (target : JumpTarget) :
    (f.jump s target).ip = target.ip? := by
  cases target <;> rfl

/-- The frame stands where a chain of dispatch points begins. -/
def OnChain (f : Frame) : Prop :=
  ∃ target around, Chain f.unit.code target around ∧ f.ip = target.ip?

theorem onChain_jump {f : Frame} {s : Store} {target : JumpTarget} {around : List OpenScope}
    (h : Chain f.unit.code target around) : (f.jump s target).OnChain :=
  ⟨target, around, by rwa [unit_jump], ip_jump ..⟩

/-- A frame on a chain is about to end, or it is at a dispatch point whose onward target is on a
    chain. -/
theorem OnChain.head {f : Frame} (h : f.OnChain) :
    f.ip = none ∨ ∃ i table around, f.instruction? = some i ∧ i.op = .dispatch table ∧
      Chain f.unit.code table.onward around := by
  obtain ⟨target, around, hchain, hip⟩ := h
  obtain rfl | ⟨ip, scopes, iters, i, o, onward, rest, rfl, hi, hop, hrest⟩ := hchain.head
  · exact .inl hip
  · exact .inr ⟨i, _, rest, instruction?_eq_some.mpr ⟨ip, hip, hi⟩, hop, hrest⟩

end Frame

/-- The landing of a suspended frame is on the chain of the scopes around its call. -/
theorem Suspended.Sound.chain {s : Store} {x : Suspended} (hx : x.Sound s) :
    ∃ around, Chain x.frame.unit.code x.landing around := by
  obtain ⟨ip, i, name, count, -, hi, hop, -, -⟩ := hx.call
  obtain ⟨body, hbody⟩ := hx.valid.unit
  obtain ⟨site, hsite⟩ := hbody.site_iff.mp ⟨i, hi⟩
  have hlinked := hbody.linked hi hsite
  rw [hop] at hlinked
  exact ⟨site.around, hlinked.1 ▸ hlinked.2⟩

/-! ## Without a marker -/

/-- The run failed since a marker was registered while another one was pending. -/
def Outcome.Collides : Outcome → Prop
  | .failure f => f.root = .channelOccupied
  | _ => False

/-- No marker is pending; a run that is over did not fail for one. -/
def Next.Quiet : Next → Prop
  | .running m => m.thread.channel = none
  | .done _ outcome => ¬ outcome.Collides

namespace Machine

variable {m : Machine} {limits : Limits} {callers : List Suspended} {next : Next}

theorem root_leaveCall {failure : Failure} (x : Suspended) (h : failure.root ≠ .channelOccupied) :
    (leaveCall failure x).root ≠ .channelOccupied := by
  cases failure with
  | fault f => exact nofun
  | _ => exact h

theorem quiet_raise {failure : Failure} (h : failure.root ≠ .channelOccupied) :
    (m.raise callers failure).Quiet := by
  unfold raise
  induction callers generalizing failure with
  | nil => exact h
  | cons x rest ih => exact ih (root_leaveCall x h)

theorem quiet_raiseTrouble (t : Trouble) : (m.raiseTrouble callers t).Quiet := by
  cases t with
  | fault cause => exact quiet_raise nofun
  | failed message => exact quiet_raise nofun
  | abort => exact id

theorem quiet_raiseHere (span : Span) (t : Trouble) : (m.raiseHere span t).Quiet := by
  cases t with
  | fault cause => exact quiet_raise nofun
  | failed message => exact quiet_raise nofun
  | abort => exact id

theorem quiet_deliver {v : Value} (h : m.thread.channel = none) : (m.deliver callers v).Quiet := by
  cases callers with
  | nil => exact id
  | cons x rest => exact h

theorem Entered.quiet {callee : Value} {args : List Value} (h : m.Entered limits callers args callee next)
    (hempty : m.thread.channel = none) : next.Quiet := by
  cases h with
  | starts => exact hempty
  | noCode | arity | notCallable | fails => exact quiet_raiseTrouble _
  | hollow => exact id
  | delivers => exact quiet_deliver hempty

theorem Called.quiet {callee : Value} {args : List Value} (h : m.Called limits callers callee args next)
    (hempty : m.thread.channel = none) : next.Quiet := by
  cases h with
  | refused => exact quiet_raiseTrouble _
  | admitted _ hentered => exact hentered.quiet hempty

theorem Left.quiet {v : Value} (h : m.Left limits v next) (hempty : m.thread.channel = none) : next.Quiet := by
  cases h with
  | ended => exact id
  | astray => exact quiet_raise nofun
  | replaced _ _ _ hentered => exact hentered.quiet hempty
  | delivers => exact quiet_deliver hempty

theorem Executed.quiet {i : Instruction} (h : m.Executed limits i next) (hempty : m.thread.channel = none)
    (hverb : ∀ marker, i.op ≠ .signal marker) : next.Quiet := by
  cases h with
  | within => exact hempty
  | unbound | fails => exact quiet_raiseHere ..
  | aborts => exact id
  | calls _ _ hcalled => exact hcalled.quiet hempty
  | returns _ _ hleft => exact hleft.quiet hempty
  | collides hop | signals hop => exact absurd hop (hverb _)
  | dispatches _ hpending => cases hempty.symm.trans hpending
  | occupied => exact quiet_raise nofun
  | parks _ _ _ hleft => exact hleft.quiet hempty

end Machine

/-! ## With a marker -/

/-- If a marker is pending, then the frame is on a chain. -/
def Machine.Clear (m : Machine) : Prop := m.thread.channel = none ∨ m.frame.OnChain

/-- As `Machine.Clear`; a run that is over did not fail for a marker. -/
def Next.Clear : Next → Prop
  | .running m => m.Clear
  | .done _ outcome => ¬ outcome.Collides

theorem Next.Quiet.clear {next : Next} (h : next.Quiet) : next.Clear := by
  cases next with
  | running m => exact .inl h
  | done m outcome => exact h

namespace Machine

variable {m : Machine} {limits : Limits} {callers : List Suspended} {next : Next}

/-- A call that comes back with a marker sends its caller to the chain of the call. -/
theorem clear_deliver (hcallers : ∀ x ∈ callers, x.Sound m.thread.store) (v : Value) :
    (m.deliver callers v).Clear := by
  cases callers with
  | nil => exact id
  | cons x rest =>
    obtain ⟨around, hchain⟩ := (hcallers x List.mem_cons_self).chain
    cases hchannel : m.thread.channel with
    | none => exact .inl hchannel
    | some marker =>
      refine .inr ?_
      simp only [hchannel, Option.isSome_some, if_true]
      exact Frame.onChain_jump hchain

theorem Left.clear (h : m.Left limits .undefined next) (hcallers : ∀ x ∈ m.callers, x.Sound m.thread.store) :
    next.Clear := by
  cases h with
  | ended => exact id
  | astray hv | replaced _ hv => cases hv
  | delivers => exact clear_deliver hcallers _

theorem clear_signal (hcallers : ∀ x ∈ m.callers, x.Sound m.thread.store)
    (h : m.thread.channel = none) (marker : Marker) : (m.signal limits marker).Clear := by
  unfold signal
  simp only [h, Channel.register?]
  exact (left ..).clear hcallers

/-- A dispatch point consumes a pending marker or sends the frame on along the chain. -/
theorem clear_dispatch {table : DispatchTable} {around : List OpenScope}
    (hchain : Chain m.frame.unit.code table.onward around) : (m.dispatch table).Clear := by
  unfold dispatch
  split
  · exact .inl (Option.isNone_iff_eq_none.mp ‹_›)
  · split
    · exact id
    · rename_i action channel hcheck
      split
      · exact id
      · rename_i target htarget
        by_cases haction : action = .pendingOther
        · subst haction
          cases htarget
          simp only [if_true]
          exact .inr (Frame.onChain_jump hchain)
        -- Every other action consumed the marker.
        · obtain hempty | ⟨hpassed, -⟩ := Channel.of_check?_eq_some hcheck
          · simp only [haction, if_false]
            exact .inl hempty
          · exact absurd hpassed haction

theorem clear_exec {i : Instruction} (hm : m.Sound) (hclear : m.Clear)
    (hi : m.frame.instruction? = some i) : (m.exec limits i).Clear := by
  -- Without a marker any instruction may run, and only a verb makes one pending. With one pending the
  -- frame is at a dispatch point, so that no other instruction comes into question.
  obtain hempty | hchain := hclear
  · by_cases hverb : ∃ marker, i.op = .signal marker
    · obtain ⟨marker, hop⟩ := hverb
      simp only [exec, hop]
      exact clear_signal hm.callers hempty marker
    · exact ((executed ..).quiet hempty fun marker hop => hverb ⟨marker, hop⟩).clear
  · obtain hnone | ⟨i', table, around, hi', hop, honward⟩ := hchain.head
    · simp [Frame.instruction?, hnone] at hi
    · obtain rfl : i = i' := Option.some.inj (hi.symm.trans hi')
      simp only [exec, hop]
      exact clear_dispatch honward

end Machine

/-! ## Runs -/

theorem Next.Canceled.not_collides {m : Machine} {outcome : Outcome}
    (h : (Next.done m outcome).Canceled) : ¬ outcome.Collides := by
  cases outcome with
  | failure f =>
    intro hcollides
    cases h.symm.trans hcollides
  | _ => exact id

theorem Next.Canceled.clear {next : Next} (h : next.Canceled) : next.Clear := by
  cases next with
  | running m => exact h.elim
  | done m outcome => exact h.not_collides

theorem clear_step {limits : Limits} {m : Machine} (hm : m.Sound) (hclear : m.Clear) :
    (step limits m).Clear := by
  obtain ⟨-, hstep⟩ | ⟨i, hi, hcanceled | ⟨steps, polls, hstep⟩⟩ := hm.step_cases limits
  · rw [hstep]
    exact (Machine.left ..).clear hm.callers
  · exact hcanceled.clear
  · rw [hstep]
    exact Machine.clear_exec (hm.counted steps polls) hclear hi

theorem Starts.clear {limits : Limits} {t : Thread} {next : Next} (h : Starts limits t next)
    (hempty : t.channel = none) : next.Clear := by
  cases h with
  | program _ => exact .inl hempty
  | call _ _ => exact ((Machine.called ..).quiet hempty).clear

/-- In every run that starts with an empty channel, a pending marker finds the frame on a chain. -/
theorem Reachable.clear {limits : Limits} {t : Thread} {m : Machine} (h : Reachable limits t m)
    (ht : t.Arises) (hempty : t.channel = none) : m.Clear := by
  obtain ⟨m₀, hstart, hreach⟩ := h
  have hboth : m.Sound ∧ m.Clear := by
    -- That the marker stays on a chain needs sound callers, so both facts go along together.
    exact hreach.invariant (I := fun next => next.Sound ∧ next.Clear)
      (fun _ hm => ⟨sound_step hm.1, clear_step hm.1 hm.2⟩) ⟨hstart.sound ht.sound, hstart.clear hempty⟩
  exact hboth.2

/-- In such a run, whatever is not a dispatch point finds the channel empty. -/
theorem Reachable.empty_channel {limits : Limits} {t : Thread} {m : Machine} {i : Instruction}
    (h : Reachable limits t m) (ht : t.Arises) (hempty : t.channel = none)
    (hi : m.frame.instruction? = some i) (hop : ∀ table, i.op ≠ .dispatch table) :
    m.thread.channel = none := by
  obtain hnone | hchain := h.clear ht hempty
  · exact hnone
  · obtain hip | ⟨i', table, -, hi', hop', -⟩ := hchain.head
    · simp [Frame.instruction?, hip] at hi
    · cases hi.symm.trans hi'
      exact absurd hop' (hop table)

theorem not_collides_iterate {limits : Limits} {fuel : Nat} {next : Next} {m : Machine}
    {outcome : Outcome} (hsound : next.Sound) (hclear : next.Clear)
    (h : iterate limits fuel next = some (m, outcome)) : ¬ outcome.Collides := by
  -- Soundness goes along, since only sound frames find a dispatch point where they land.
  have hend := iterate_invariant (I := fun next => next.Sound ∧ next.Clear)
    (fun _ hm => ⟨sound_step hm.1, clear_step hm.1 hm.2⟩) ⟨hsound, hclear⟩ h
  exact hend.2

theorem Starts.not_collides {limits : Limits} {t : Thread} {next : Next} {fuel : Nat} {r : Report}
    (hstart : Starts limits t next) (ht : t.Arises) (hempty : t.channel = none)
    (h : Thread.finish limits fuel next = some r) : ¬ r.outcome.Collides := by
  obtain ⟨⟨m, outcome⟩, hm, rfl⟩ := Option.map_eq_some_iff.mp h
  have houtcome := not_collides_iterate (hstart.sound ht.sound) (hstart.clear hempty) hm
  cases outcome with
  | value v =>
    cases hchannel : m.thread.channel with
    | none => simp [Thread.report, hchannel, Outcome.Collides]
    | some marker => simp [Thread.report, hchannel, Outcome.Collides, Failure.root]
  | failure f => exact houtcome
  | aborted => exact id

/-- At most one marker is pending, and no code of the guest runs while one is. In every run of an accepted
    program and in every call that starts with an empty channel: while a marker is pending the frame is
    about to end or at a dispatch point, every marker is registered on an empty channel, and neither runs
    nor calls fail for an occupied one. -/
theorem pending_marker_meets_only_dispatch {limits : Limits} {t : Thread} (ht : t.Arises)
    (hempty : t.channel = none) :
    (∀ m marker, Reachable limits t m → m.thread.channel = some marker →
      m.frame.ip = none ∨ ∃ i table, m.frame.instruction? = some i ∧ i.op = .dispatch table) ∧
    (∀ m i marker, Reachable limits t m → m.frame.instruction? = some i → i.op = .signal marker →
      m.thread.channel.register? marker = some (some marker)) ∧
    (∀ origin module p fuel r, compile origin module = .ok p → t.run limits fuel p = some r →
      ¬ r.outcome.Collides) ∧
    (∀ name args fuel r, (∀ v ∈ args, v.Held t.store) → t.call limits fuel name args = some r →
      ¬ r.outcome.Collides) := by
  refine ⟨fun m marker hm hpending => ?_, fun m i marker hm hi hop => ?_,
    fun origin module p fuel r hp hr => ?_, fun name args fuel r hargs hr => ?_⟩
  · obtain hnone | hchain := hm.clear ht hempty
    · cases hnone.symm.trans hpending
    · obtain hip | ⟨i, table, -, hi, hop, -⟩ := hchain.head
      · exact .inl hip
      · exact .inr ⟨i, table, hi, hop⟩
  · rw [hm.empty_channel ht hempty hi (by rw [hop]; exact nofun)]
    rfl
  · exact (Starts.program hp).not_collides ht hempty hr
  · unfold Thread.call at hr
    split at hr
    · cases hr
      exact nofun
    · exact (Starts.call ‹_› hargs).not_collides ht hempty hr

/-- In the script that escapes from its calls, the marker is pending between the two outer loops. -/
theorem escape_meets_dispatch :
    (Thread.new 0).channel = none ∧ Reachable Escape.limits (.new 0) (Escape.after 19) ∧
      (Escape.after 19).thread.channel.map (·.target) = some "OUT" ∧
      ∃ i table, (Escape.after 19).frame.instruction? = some i ∧ i.op = .dispatch table := by
  have hreach := Escape.reachable_after (n := 19) (by decide +kernel)
  have hpending : (Escape.after 19).thread.channel.map (·.target) = some "OUT" := by decide +kernel
  obtain ⟨marker, hmarker, -⟩ := Option.map_eq_some_iff.mp hpending
  obtain hip | hpoint :=
    (pending_marker_meets_only_dispatch (.new 0) rfl).1 _ marker hreach hmarker
  · have hsome : (Escape.after 19).frame.ip = some 9 := by decide +kernel
    cases hip.symm.trans hsome
  · exact ⟨rfl, hreach, hpending, hpoint⟩

end KestrelLang
