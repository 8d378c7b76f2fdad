import KestrelLang.Proofs.Machine.Carrying

/-! # Where a marker goes

* `Suspended.Within` — a frame is stopped at a call inside certain scopes of the text of its unit.
* `Machine.Undisturbed` — another machine with the same variables, arrays and output.
* `carried_caller` — a frame that ends with a marker pending sends it through the scopes around the call
  of its caller.
* `carried_frames` — a marker leaves all frames whose calls stand in no scope with its label.
* `carried_signal`, `leave_unmatched` — how a marker sets out, and how it ends without a scope.
* `signal_reaches_innermost_label` — a verb that leaves its unit continues in the innermost caller with a
  scope of that label around its call. -/

namespace KestrelLang

open KestrelLang.Code

/-! ## Calls and the scopes around them -/

/-- The frame is stopped at a call that the text of its unit has inside the scopes `around`, the innermost
    first. -/
def Suspended.Within (x : Suspended) (around : List OpenScope) : Prop :=
  ∃ body ip i name count s, CodeOf body x.frame.unit ∧ x.frame.ip = some ip ∧
    x.frame.unit.code[ip]? = some i ∧ i.op = .call name count x.landing ∧
    (unitSites x.frame.unit.isSub x.frame.unit.origin body)[ip]? = some s ∧ s.around = around

namespace Suspended

variable {s : Store} {x : Suspended} {around : List OpenScope}

theorem Sound.within (hx : x.Sound s) : ∃ around, x.Within around := by
  obtain ⟨ip, i, name, count, hip, hi, hop, -, -⟩ := hx.call
  obtain ⟨body, hbody⟩ := hx.valid.unit
  obtain ⟨site, hsite⟩ := hbody.site_iff.mp ⟨i, hi⟩
  exact ⟨site.around, body, ip, i, name, count, site, hbody, hip, hi, hop, hsite, rfl⟩

theorem Within.chain (hx : x.Within around) : Chain x.frame.unit.code x.landing around := by
  obtain ⟨body, ip, i, name, count, site, hbody, -, hi, hop, hsite, rfl⟩ := hx
  have hlinked := hbody.linked hi hsite
  rw [hop] at hlinked
  exact hlinked.1 ▸ hlinked.2

theorem Sound.fits_landing (hx : x.Sound s) {shapes : Nat → Option Shape}
    (hshapes : Consistent x.frame.unit.code shapes) :
    ∃ below, TargetFits shapes (x.frame.shape s below) x.landing := by
  obtain ⟨ip, i, name, count, hip, hi, hop, -, hshaped⟩ := hx.call
  have hfits := hshapes.fits (hshaped.at_ip hip hshapes) hi
  rw [hop] at hfits
  exact ⟨count + 1, hfits.2.2⟩

end Suspended

/-! ## Leaving frames -/

/-- The machine `m'` has the variables, the arrays and the output of `m`, and the given channel and
    callers. -/
structure Machine.Undisturbed (m : Machine) (channel : Channel) (callers : List Suspended)
    (m' : Machine) : Prop where
  store : m'.thread.store = m.thread.store
  out : m'.out = m.out
  channel : m'.thread.channel = channel
  callers : m'.callers = callers

theorem Machine.Undisturbed.trans {m m₁ m₂ : Machine} {c₁ c₂ : Channel} {callers₁ callers₂ : List Suspended}
    (h₁ : m.Undisturbed c₁ callers₁ m₁) (h₂ : m₁.Undisturbed c₂ callers₂ m₂) :
    m.Undisturbed c₂ callers₂ m₂ :=
  ⟨h₂.store.trans h₁.store, h₂.out.trans h₁.out, h₂.channel, h₂.callers⟩

section Leaving

variable {limits : Limits} {marker : Marker} {Q : Next → Prop} {m : Machine}

/-- A frame that ends with a marker pending gives it to the scopes around the call of its caller. The
    innermost one with the right label takes it; if there is none, then the caller ends too. -/
theorem carried_caller {x : Suspended} {outer : List Suspended} {around : List OpenScope}
    (hmarker : marker.Proper) (hstore : m.thread.store.Nested) (hx : x.Sound m.thread.store)
    (hwithin : x.Within around) (hchannel : m.thread.channel = some marker)
    (hcallers : m.callers = x :: outer)
    (htaken : ∀ o m', around.find? (·.label = marker.target) = some o →
      m.Undisturbed none outer m' →
      Frame.CutTo m.thread.store x.frame (o.targets.of marker.kind) m'.frame → Q (.running m'))
    (hpassed : ∀ m', around.find? (·.label = marker.target) = none →
      m.Undisturbed (some marker) outer m' → CarriedTo limits marker Q (m'.leave limits .undefined)) :
    CarriedTo limits marker Q (m.leave limits .undefined) := by
  obtain ⟨body, hbody⟩ := hx.valid.unit
  obtain ⟨below, hfits⟩ := hx.fits_landing hbody.consistent
  have hleave : m.leave limits .undefined = .running { m with
      thread := { m.thread with depth := m.thread.depth - 1 }
      frame := x.frame.jump m.thread.store x.landing
      callers := outer } := by
    simp [Machine.leave, Machine.deliver, hcallers, hchannel, Value.isTailCalled]
  rw [hleave]
  refine carried_chain (m := { m with
      thread := { m.thread with depth := m.thread.depth - 1 }, callers := outer })
    hmarker hbody.consistent hwithin.chain hfits ⟨?_, rfl, rfl, rfl, rfl⟩ ?_ ?_
  · simp only [← hchannel]
  · intro o m' hfind hinside htarget hbecomes
    refine htaken o m' hfind ⟨?_, hbecomes.out, ?_, hbecomes.callers⟩ ?_
    · rw [hbecomes.thread]
    · rw [hbecomes.thread]
    · rw [hbecomes.frame]
      exact hx.valid.cutTo hstore hinside htarget
  -- Out of the caller: its next step is that it ends as well.
  · intro m' hfind hbecomes
    have hpending : m'.thread.channel = some marker := by rw [hbecomes.thread]
    have hstep : step limits m' = m'.leave limits .undefined := by
      simp only [step, hbecomes.frame, Frame.ip_jump, JumpTarget.ip?]
    refine .step hpending ?_
    rw [hstep]
    refine hpassed m' hfind ⟨?_, hbecomes.out, hpending, hbecomes.callers⟩
    rw [hbecomes.thread]

/-- A marker leaves all frames whose calls stand in no scope with its label. -/
theorem carried_frames (hmarker : marker.Proper) {outer : List Suspended}
    (inner : List (Suspended × List OpenScope)) (hstore : m.thread.store.Nested)
    (hcallers : m.callers = inner.map Prod.fst ++ outer)
    (hsound : ∀ c ∈ inner, c.1.Sound m.thread.store) (hwithin : ∀ c ∈ inner, c.1.Within c.2)
    (hfree : ∀ c ∈ inner, ∀ o ∈ c.2, o.label ≠ marker.target)
    (hchannel : m.thread.channel = some marker)
    (hQ : ∀ m', m.Undisturbed (some marker) outer m' →
      CarriedTo limits marker Q (m'.leave limits .undefined)) :
    CarriedTo limits marker Q (m.leave limits .undefined) := by
  -- From the innermost caller outward; the store is the same all the way, so all callers stay sound.
  induction inner generalizing m with
  | nil => exact hQ m ⟨rfl, rfl, hchannel, hcallers⟩
  | cons c rest ih =>
    rw [List.forall_mem_cons] at hsound hwithin hfree
    have hnone : c.2.find? (·.label = marker.target) = none := by
      simpa [List.find?_eq_none] using hfree.1
    refine carried_caller hmarker hstore hsound.1 hwithin.1 hchannel hcallers ?_ ?_
    · intro o m' hfind
      rw [hnone] at hfind
      cases hfind
    · intro m' _ hkept
      refine ih ?_ hkept.callers ?_ hwithin.2 hfree.2 hkept.channel fun m'' h => hQ m'' (hkept.trans h)
      · rw [hkept.store]
        exact hstore
      · rw [hkept.store]
        exact hsound.2

end Leaving

section Sending

variable {limits : Limits} {marker : Marker} {Q : Next → Prop} {m : Machine}

/-- The step of such a verb is the end of its frame with the marker pending. -/
theorem carried_signal {i : Instruction} (hi : m.frame.instruction? = some i)
    (hop : i.op = .signal marker) (hchannel : m.thread.channel = none)
    (hQ : ∀ m', m.Undisturbed (some marker) m.callers m' →
      CarriedTo limits marker Q (m'.leave limits .undefined)) :
    CarriedTo limits marker Q (step limits m) := by
  obtain hcanceled | ⟨steps, polls, hstep⟩ := Machine.step_of_instruction limits hi
  · exact .canceled hcanceled
  · obtain ⟨events, hleave⟩ := Machine.signal_eq_leave
      (m := { m with steps := steps, polls := polls }) limits hchannel marker
    rw [hstep]
    simp only [Machine.exec, hop]
    rw [hleave]
    exact hQ _ ⟨rfl, rfl, rfl, rfl⟩

theorem leave_unmatched {m₁ : Machine} (h : m.Undisturbed (some marker) [] m₁) :
    ∃ m', m₁.leave limits .undefined = .done m' (.value .undefined) ∧
      m.Undisturbed (some marker) [] m' ∧
      (Thread.report m' (.value .undefined)).outcome = .failure (.fault (.ofMarker marker)) := by
  have hleave : ∃ m', m₁.leave limits .undefined = .done m' (.value .undefined) ∧
      m.Undisturbed (some marker) [] m' := by
    cases hbase : m₁.base with
    | program => exact ⟨m₁, by simp [Machine.leave, h.callers, hbase], h⟩
    | call =>
      refine ⟨{ m₁ with thread := { m₁.thread with depth := m₁.thread.depth - 1 } }, ?_,
        h.store, h.out, h.channel, h.callers⟩
      simp [Machine.leave, Machine.deliver, h.callers, hbase, Value.isTailCalled]
  obtain ⟨m', hdone, hkept⟩ := hleave
  exact ⟨m', hdone, hkept, by simp [Thread.report, hkept.channel]⟩

theorem exists_calls {s : Store} {callers : List Suspended} (h : ∀ x ∈ callers, x.Sound s) :
    ∃ calls : List (Suspended × List OpenScope),
      callers = calls.map Prod.fst ∧ ∀ c ∈ calls, c.1.Within c.2 := by
  induction callers with
  | nil => exact ⟨[], rfl, fun c hc => absurd hc List.not_mem_nil⟩
  | cons x rest ih =>
    rw [List.forall_mem_cons] at h
    obtain ⟨calls, rfl, hcalls⟩ := ih h.2
    obtain ⟨around, hwithin⟩ := h.1.within
    exact ⟨(x, around) :: calls, rfl, List.forall_mem_cons.mpr ⟨hwithin, hcalls⟩⟩

end Sending

/-- Dynamic resolution of labels. In a run that starts with an empty channel, let a verb send a marker
    while `m.callers` are stopped at calls, each inside the scopes that its text has around the call. The
    innermost caller with a scope of that label continues where the innermost such scope says for the
    kind of the marker, cut back to the depths of that place and with an empty stack; the frames inside
    it are gone, the channel is empty, and variables, arrays and output are as they were. If no caller has
    such a scope, then the run ends with the fault of an unmatched label. In both cases the marker is
    pending until then, unless the host stops the run on the way. -/
theorem signal_reaches_innermost_label {limits : Limits} {t : Thread} {m : Machine} {i : Instruction}
    {marker : Marker} (ht : t.Arises) (hempty : t.channel = none) (hm : Reachable limits t m)
    (hi : m.frame.instruction? = some i) (hop : i.op = .signal marker) :
    (∃ calls : List (Suspended × List OpenScope),
      m.callers = calls.map Prod.fst ∧ ∀ c ∈ calls, c.1.Within c.2) ∧
    ∀ calls : List (Suspended × List OpenScope),
      m.callers = calls.map Prod.fst → (∀ c ∈ calls, c.1.Within c.2) →
      (∀ (inner outer : List (Suspended × List OpenScope)) (x : Suspended) (around : List OpenScope)
          (o : OpenScope), calls = inner ++ (x, around) :: outer →
        (∀ c ∈ inner, ∀ o' ∈ c.2, o'.label ≠ marker.target) →
        around.find? (·.label = marker.target) = some o →
        CarriedTo limits marker (fun next => ∃ m', next = .running m' ∧
          m.Undisturbed none (outer.map Prod.fst) m' ∧
          Frame.CutTo m.thread.store x.frame (o.targets.of marker.kind) m'.frame) (step limits m)) ∧
      ((∀ c ∈ calls, ∀ o ∈ c.2, o.label ≠ marker.target) →
        CarriedTo limits marker (fun next => ∃ m', next = .done m' (.value .undefined) ∧
          m.Undisturbed (some marker) [] m' ∧
          (Thread.report m' (.value .undefined)).outcome = .failure (.fault (.ofMarker marker)))
          (step limits m)) := by
  have hsound := hm.sound ht
  have hstore := hsound.thread.store.nested
  have hchannel := hm.empty_channel ht hempty hi (by rw [hop]; exact nofun)
  obtain ⟨ip, hip, hcode⟩ := Frame.instruction?_eq_some.mp hi
  have hmarker := hsound.frame.unit.proper hcode hop
  refine ⟨exists_calls hsound.callers, fun calls hcallers hwithin => ⟨?_, ?_⟩⟩
  -- The marker leaves the frames of `inner`, and `x` takes it.
  · rintro inner outer x around o rfl hfree hfind
    rw [List.map_append, List.map_cons] at hcallers
    have hcall : ∀ c ∈ inner ++ (x, around) :: outer, c.1.Sound m.thread.store := by
      intro c hc
      refine hsound.callers c.1 ?_
      rw [hcallers, ← List.map_cons, ← List.map_append]
      exact List.mem_map_of_mem hc
    rw [List.forall_mem_append, List.forall_mem_cons] at hwithin hcall
    refine carried_signal hi hop hchannel fun m₁ h₁ => ?_
    refine carried_frames hmarker inner (h₁.store ▸ hstore) (h₁.callers.trans hcallers)
      (h₁.store ▸ hcall.1) hwithin.1 hfree h₁.channel fun m₂ h₂ => ?_
    have hkept := h₁.trans h₂
    refine carried_caller hmarker (hkept.store ▸ hstore) (hkept.store ▸ hcall.2.1) hwithin.2.1
      hkept.channel hkept.callers ?_ ?_
    · intro o' m' ho' hm' hcut
      obtain rfl : o = o' := Option.some.inj (hfind.symm.trans ho')
      exact ⟨m', rfl, hkept.trans hm', hkept.store ▸ hcut⟩
    · intro m' hnone
      rw [hfind] at hnone
      cases hnone
  -- The marker leaves all frames.
  · intro hfree
    refine carried_signal hi hop hchannel fun m₁ h₁ => ?_
    have hall : m₁.callers = calls.map Prod.fst ++ [] := by rw [h₁.callers, hcallers, List.append_nil]
    refine carried_frames hmarker calls (h₁.store ▸ hstore) hall ?_ hwithin hfree h₁.channel
      fun m₂ h₂ => ?_
    · intro c hc
      rw [h₁.store]
      exact hsound.callers c.1 (hcallers ▸ List.mem_map_of_mem hc)
    · refine .arrives ?_
      exact leave_unmatched (h₁.trans h₂)

namespace Escape

def marker : Marker := ⟨.exit, "OUT", place, "escape"⟩

def caller (n : Nat) : Suspended := ((after 16).callers[n]?).getD default

/-- The scopes around the call at which a frame waits whose unit has the given body. -/
def around (body : List Stmt) (x : Suspended) : List OpenScope :=
  ((x.frame.ip.bind fun ip =>
    (unitSites x.frame.unit.isSub x.frame.unit.origin body)[ip]?).map Site.around).getD []

theorem within_relay : (caller 0).Within (around relay (caller 0)) :=
  ⟨relay, _, _, _, _, _, ⟨rfl, _, ⟨[], [], [], []⟩, _, rfl, rfl⟩, rfl, rfl, rfl, rfl, rfl⟩

theorem within_script : (caller 1).Within (around script.body (caller 1)) :=
  ⟨script.body, _, _, _, _, _, ⟨rfl, _, ⟨[], [], [], []⟩, _, rfl, rfl⟩, rfl, rfl, rfl, rfl, rfl⟩

end Escape

/-- The script's marker passes the loop inside the outer closure and the loop without a label, and the
    main chunk continues after the outermost loop. -/
theorem escape_reaches_outermost_loop :
    Reachable Escape.limits (.new 0) (Escape.after 16) ∧
      (Escape.after 16).callers = [Escape.caller 0, Escape.caller 1] ∧
      (Escape.around Escape.relay (Escape.caller 0)).map (·.label) = ["IN"] ∧
      (Escape.around Escape.script.body (Escape.caller 1)).map (·.label) = ["", "OUT"] ∧
      ∃ o, (Escape.around Escape.script.body (Escape.caller 1)).find? (·.label = "OUT") = some o ∧
        CarriedTo Escape.limits Escape.marker (fun next => ∃ m', next = .running m' ∧
          (Escape.after 16).Undisturbed none [] m' ∧
          Frame.CutTo (Escape.after 16).thread.store (Escape.caller 1).frame (o.targets.of .exit)
            m'.frame) (step Escape.limits (Escape.after 16)) := by
  have hreach := Escape.reachable_after (n := 16) (by decide +kernel)
  have hinstr : (Escape.after 16).frame.instruction? = some ⟨.signal Escape.marker, Escape.place⟩ := rfl
  obtain ⟨o, ho⟩ := Option.isSome_iff_exists.mp (show ((Escape.around Escape.script.body
    (Escape.caller 1)).find? (·.label = "OUT")).isSome by decide +kernel)
  have hwithin : ∀ c ∈ [(Escape.caller 0, Escape.around Escape.relay (Escape.caller 0)),
      (Escape.caller 1, Escape.around Escape.script.body (Escape.caller 1))], c.1.Within c.2 := by
    simp only [List.forall_mem_cons]
    exact ⟨Escape.within_relay, Escape.within_script, by simp⟩
  have hresolved := (signal_reaches_innermost_label (.new 0) rfl hreach hinstr rfl).2 _ rfl hwithin
  exact ⟨hreach, rfl, rfl, rfl, o, ho, hresolved.1 [_] [] _ _ o rfl (by decide +kernel) ho⟩

end KestrelLang
