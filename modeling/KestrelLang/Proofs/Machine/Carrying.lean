import KestrelLang.Proofs.Label.Verbs
import KestrelLang.Proofs.Machine.Pending

/-! # How a pending marker travels

* `Frame.jump_jump` — a jump after a jump that stays further inside is one jump.
* `dispatch_takes`, `dispatch_passes` — what a dispatch point of a scope does with a pending marker.
* `CarriedTo` — the marker stays pending until a step leads to the wanted state.
* `Machine.Becomes` — a machine but for its channel, its frame, its counters and its events.
* `carried_chain` — along a chain the marker comes to the innermost scope with its label, or out of the
  frame. -/

namespace KestrelLang

open KestrelLang.Code

/-! ## Jumps -/

theorem cutIters_cutIters {n n' : Nat} {iters : List Iter} (h : n ≤ n') (h' : n' ≤ iters.length) :
    cutIters n (cutIters n' iters) = cutIters n iters := by
  have hdrop : iters.length - n' + (n' - n) = iters.length - n := by omega
  rw [cutIters, Frame.length_cutIters h', cutIters, cutIters, List.drop_drop, hdrop]

namespace Frame

variable {shapes : Nat → Option Shape} {s : Store} {f : Frame} {below ip scopes iters : Nat}
  {target : JumpTarget}

theorem jump_jump (h₁ : TargetFits shapes (f.shape s below) (.to ip scopes iters))
    (h₂ : TargetFits shapes ⟨0, scopes, iters⟩ target) :
    (f.jump s (.to ip scopes iters)).jump s target = f.jump s target := by
  cases target with
  | exit => simp only [jump, s.unwind_unwind (Nat.le_add_right f.baseDepth scopes)]
  | «to» ip' scopes' iters' =>
    have hscopes : f.baseDepth + scopes' ≤ f.baseDepth + scopes := Nat.add_le_add_left h₂.1 _
    simp only [jump, s.unwind_unwind hscopes, cutIters_cutIters h₂.2.1 h₁.2.1]

/-- The frame `f'` is `f` cut back to the depths of an address of its code, in front of that address. -/
structure CutTo (s : Store) (f : Frame) (target : JumpTarget) (f' : Frame) : Prop where
  moved : f' = f.jump s target
  emptied : f'.stack = []
  depths : ∃ ip scopes iters, target = .to ip scopes iters ∧ f'.ip = some ip ∧
    s.depth f'.env = f.baseDepth + scopes ∧ f'.iters = f.iters.drop (f.iters.length - iters) ∧
    f'.iters.length = iters

theorem Valid.cutTo (hf : f.Valid s) (hs : s.Nested) (hinside : target.staysInside)
    (htarget : TargetFits shapes (f.shape s below) target) : CutTo s f target (f.jump s target) := by
  cases target with
  | exit => cases hinside
  | «to» ip scopes iters =>
    obtain ⟨hscopes, hiters, -⟩ := htarget
    have hdepth := depth_unwind hs f scopes
    have hbase := hf.base
    simp only [shape] at hscopes hiters
    refine ⟨rfl, rfl, ip, scopes, iters, rfl, rfl, hdepth.trans ?_, rfl, length_cutIters hiters⟩
    omega

end Frame

/-! ## Dispatch points and verbs -/

theorem target?_table {o : OpenScope} (onward : JumpTarget) {kind : MarkerKind} {verb : Verb}
    (hlabel : o.label ≠ "") (hverb : MarkerKind.ofVerb? verb = some kind) :
    ∃ action, kind.action? = some action ∧ action ≠ .pendingOther ∧
      (o.table onward).target? action = some (o.targets.of kind) := by
  cases verb <;> cases hverb
  all_goals exact ⟨_, rfl, by simp, by simp [OpenScope.table, hlabel, DispatchTable.target?,
    Continuations.of]⟩

namespace Machine

variable {m : Machine} {marker : Marker}

theorem dispatch_takes (hchannel : m.thread.channel = some marker) (hmarker : marker.Proper)
    {o : OpenScope} (ho : o.label = marker.target) (onward : JumpTarget) :
    ∃ events, m.dispatch (o.table onward) = .running { m with
      thread := { m.thread with channel := none }
      frame := m.frame.jump m.thread.store (o.targets.of marker.kind)
      events := events } := by
  have hlabel : o.label ≠ "" := ho ▸ hmarker.labeled
  obtain ⟨verb, hverb⟩ := hmarker.known
  obtain ⟨action, haction, hother, htarget⟩ := target?_table onward hlabel hverb
  have hcheck : m.thread.channel.check? (o.table onward).label = some (action, none) := by
    have hname : (o.table onward).label = marker.target := ho
    simp [hchannel, Channel.check?, hname, hmarker.labeled, haction]
  simp only [dispatch, hchannel, Option.isNone_some, Bool.false_eq_true, if_false] at hcheck ⊢
  simp only [hcheck, htarget, hother, if_false]
  exact ⟨_, rfl⟩

theorem dispatch_passes (hchannel : m.thread.channel = some marker) {o : OpenScope}
    (ho : o.label ≠ marker.target) (onward : JumpTarget) :
    m.dispatch (o.table onward) =
      .running { m with frame := m.frame.jump m.thread.store onward } := by
  have hcheck : Channel.check? (some marker) (o.table onward).label =
      some (.pendingOther, some marker) := by
    have hname : marker.target ≠ (o.table onward).label := Ne.symm ho
    simp [Channel.check?, hname]
  simp only [dispatch, hchannel, Option.isNone_some, Bool.false_eq_true, if_false, hcheck,
    DispatchTable.target?, if_true]
  simp only [OpenScope.table, ← hchannel]

theorem signal_eq_leave (limits : Limits) (h : m.thread.channel = none) (marker : Marker) :
    ∃ events, m.signal limits marker =
      { m with
        thread := { m.thread with channel := some marker }
        events := events }.leave limits .undefined := by
  simp only [signal, h, Channel.register?]
  exact ⟨_, rfl⟩

end Machine

/-! ## Until the marker is taken -/

/-- Steps lead from `next` to a state as `Q` says, and the marker is pending all the while; or the host
    stops the run on the way. -/
inductive CarriedTo (limits : Limits) (marker : Marker) (Q : Next → Prop) : Next → Prop
  | arrives {next : Next} : Q next → CarriedTo limits marker Q next
  | canceled {next : Next} : next.Canceled → CarriedTo limits marker Q next
  | step {m : Machine} : m.thread.channel = some marker → CarriedTo limits marker Q (step limits m) →
      CarriedTo limits marker Q (.running m)

/-- The machine `m'` is `m` with the given channel and frame; counters and events may differ. -/
structure Machine.Becomes (m : Machine) (channel : Channel) (frame : Frame) (m' : Machine) : Prop where
  thread : m'.thread = { m.thread with channel := channel }
  frame : m'.frame = frame
  callers : m'.callers = m.callers
  base : m'.base = m.base
  out : m'.out = m.out

section Chains

variable {limits : Limits} {marker : Marker} {Q : Next → Prop} {m m₁ : Machine} {f : Frame}
  {shapes : Nat → Option Shape} {below : Nat} {target : JumpTarget} {around : List OpenScope}

/-- A marker that lands on a chain comes to the continuation of the innermost scope with its label. If
    there is none, then it comes out of the frame. -/
theorem carried_chain (hmarker : marker.Proper) (hshapes : Consistent f.unit.code shapes)
    (hchain : Chain f.unit.code target around)
    (hfits : TargetFits shapes (f.shape m.thread.store below) target)
    (hm : m.Becomes (some marker) (f.jump m.thread.store target) m₁)
    (htaken : ∀ o m', around.find? (·.label = marker.target) = some o →
      (o.targets.of marker.kind).staysInside →
      TargetFits shapes (f.shape m.thread.store below) (o.targets.of marker.kind) →
      m.Becomes none (f.jump m.thread.store (o.targets.of marker.kind)) m' → Q (.running m'))
    (hpassed : ∀ m', around.find? (·.label = marker.target) = none →
      m.Becomes (some marker) (f.jump m.thread.store .exit) m' →
      CarriedTo limits marker Q (.running m')) :
    CarriedTo limits marker Q (.running m₁) := by
  -- Along the chain: what stays the same is that the frame is `f` after one jump to the current target,
  -- however many dispatch points were passed before.
  induction hchain generalizing m₁ with
  | exit => exact hpassed m₁ rfl hm
  | @silent o target rest hlabel _ ih =>
    have hskip : (o :: rest).find? (·.label = marker.target) =
        rest.find? (·.label = marker.target) :=
      List.find?_cons_of_neg (by simpa [hlabel] using Ne.symm hmarker.labeled)
    rw [hskip] at htaken hpassed
    exact ih hfits hm htaken hpassed
  | @point ip scopes iters i o onward rest hi hop _ ih =>
    have hchannel : m₁.thread.channel = some marker := by rw [hm.thread]
    have hstore : m₁.thread.store = m.thread.store := by rw [hm.thread]
    have hinstr : m₁.frame.instruction? = some i := by
      refine Frame.instruction?_eq_some.mpr ⟨ip, ?_, ?_⟩
      · rw [hm.frame, Frame.ip_jump]
        rfl
      · rwa [hm.frame, Frame.unit_jump]
    have hpoint := hshapes.fits hfits.2.2 hi
    simp only [hop, OperationFits] at hpoint
    obtain ⟨-, honward, htargets⟩ := hpoint
    have hwider : ∀ {t}, TargetFits shapes ⟨0, scopes, iters⟩ t →
        TargetFits shapes (f.shape m.thread.store below) t := fun h => h.mono hfits.1 hfits.2.1
    -- Jumps from here are jumps from `f`, since the targets of a point stand no deeper than the point.
    have hjump : ∀ {t}, TargetFits shapes ⟨0, scopes, iters⟩ t →
        m₁.frame.jump m₁.thread.store t = f.jump m.thread.store t := by
      intro t ht
      rw [hm.frame, hstore]
      exact Frame.jump_jump hfits ht
    refine .step hchannel ?_
    obtain hcanceled | ⟨steps, polls, hstep⟩ := Machine.step_of_instruction limits hinstr
    · exact .canceled hcanceled
    rw [hstep]
    simp only [Machine.exec, hop]
    by_cases hlabel : o.label = marker.target
    · obtain ⟨events, htakes⟩ := Machine.dispatch_takes
        (m := { m₁ with steps := steps, polls := polls }) hchannel hmarker hlabel onward
      obtain ⟨hinside, hhome⟩ := htargets.1 o.targets
        (by simp [OpenScope.table, hlabel, hmarker.labeled]) marker.kind
      rw [htakes]
      refine .arrives (htaken o _ (List.find?_cons_of_pos (by simpa using hlabel)) hinside
        (hwider hhome) ⟨?_, hjump hhome, hm.callers, hm.base, hm.out⟩)
      simp only [hm.thread]
    · have hskip : (o :: rest).find? (·.label = marker.target) =
          rest.find? (·.label = marker.target) :=
        List.find?_cons_of_neg (by simpa using hlabel)
      rw [hskip] at htaken hpassed
      rw [Machine.dispatch_passes (m := { m₁ with steps := steps, polls := polls }) hchannel hlabel
        onward]
      exact ih (hwider honward) ⟨hm.thread, hjump honward, hm.callers, hm.base, hm.out⟩ htaken hpassed

end Chains

end KestrelLang
