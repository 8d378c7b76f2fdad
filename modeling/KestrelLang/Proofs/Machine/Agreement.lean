import KestrelLang.Proofs.Machine.Carrying

/-! # The jump of a verb and the dispatch of its marker

* `Machine.landOn` — a marker is registered, and the frame lands where a call in its place would.
* `Machine.JumpAgrees` — a jump leaves the frame that the dispatch points leave.
* `Machine.SignalAgrees` — no dispatch point of the frame takes the marker.
* `jump_agrees_with_dispatch` — the verbs of the text, of the resolution and of the code agree with each
  other and with the dispatch points. -/

namespace KestrelLang

open KestrelLang.Code KestrelLang.Label

/-! ## One verb -/

namespace Machine

variable {m : Machine} {i : Instruction} {marker : Marker} {landing : JumpTarget}
  {around : List OpenScope} {shapes : Nat → Option Shape}

/-- The marker is registered, and the frame continues at the landing of a call in place of the verb. -/
def landOn (m : Machine) (marker : Marker) (landing : JumpTarget) : Machine :=
  { m with
    thread := { m.thread with channel := some marker }
    frame := m.frame.jump m.thread.store landing }

/-- The instruction leaves the frame and the channel that are left when the marker is registered instead
    and the dispatch points run that begin at the landing: the channel is empty again. -/
def JumpAgrees (m : Machine) (i : Instruction) (marker : Marker) (landing : JumpTarget) : Prop :=
  ∃ frame : Frame, frame.stack = [] ∧
    (∀ limits, ∃ m₁, m.exec limits i = .running m₁ ∧ m.Becomes none frame m₁) ∧
    ∀ limits, CarriedTo limits marker (fun next => ∃ m₂, next = .running m₂ ∧ m.Becomes none frame m₂)
      (.running (m.landOn marker landing))

/-- The instruction ends the frame, whose value is undef, with the marker pending; so do the dispatch
    points that begin at the landing, none of which takes the marker. -/
def SignalAgrees (m : Machine) (i : Instruction) (marker : Marker) (landing : JumpTarget) : Prop :=
  (∀ limits, ∃ m₁, m.Becomes (some marker) m.frame m₁ ∧
    m.exec limits i = m₁.leave limits .undefined) ∧
  ∀ limits, CarriedTo limits marker (fun next => ∃ m₂, next = .running m₂ ∧
      m.Becomes (some marker) (m.frame.jump m.thread.store .exit) m₂ ∧
      step limits m₂ = m₂.leave limits .undefined)
    (.running (m.landOn marker landing))

theorem becomes_landOn (m : Machine) (marker : Marker) (landing : JumpTarget) :
    m.Becomes (some marker) (m.frame.jump m.thread.store landing) (m.landOn marker landing) :=
  ⟨rfl, rfl, rfl, rfl, rfl⟩

/-- A jump to the innermost scope with the label agrees with the dispatch points. -/
theorem jumpAgrees (hmarker : marker.Proper) (hshapes : Consistent m.frame.unit.code shapes)
    (hchain : Chain m.frame.unit.code landing around)
    (hfits : TargetFits shapes (m.frame.shape m.thread.store 0) landing)
    (hchannel : m.thread.channel = none) {o : OpenScope}
    (ho : around.find? (·.label = marker.target) = some o)
    (hop : i.op = .jump (o.targets.of marker.kind)) : m.JumpAgrees i marker landing := by
  refine ⟨m.frame.jump m.thread.store (o.targets.of marker.kind), ?_, fun limits => ?_, fun limits => ?_⟩
  · cases o.targets.of marker.kind <;> rfl
  · refine ⟨{ m with frame := m.frame.jump m.thread.store (o.targets.of marker.kind) },
      by simp only [exec, hop], ?_, rfl, rfl, rfl, rfl⟩
    simp only [← hchannel]
  · refine carried_chain hmarker hshapes hchain hfits (becomes_landOn m marker landing) ?_ ?_
    -- The chain takes the marker at the scope that the jump goes to: both are the first with the label.
    · intro o' m' ho' _ _ hm'
      obtain rfl : o = o' := Option.some.inj (ho.symm.trans ho')
      exact ⟨m', rfl, hm'⟩
    · intro m' hnone
      rw [ho] at hnone
      cases hnone

/-- A marker for a label that no scope around the verb has agrees with the dispatch points. -/
theorem signalAgrees (hmarker : marker.Proper) (hshapes : Consistent m.frame.unit.code shapes)
    (hchain : Chain m.frame.unit.code landing around)
    (hfits : TargetFits shapes (m.frame.shape m.thread.store 0) landing)
    (hchannel : m.thread.channel = none)
    (hnone : around.find? (·.label = marker.target) = none)
    (hop : i.op = .signal marker) : m.SignalAgrees i marker landing := by
  refine ⟨fun limits => ?_, fun limits => ?_⟩
  · obtain ⟨events, hleave⟩ := signal_eq_leave limits hchannel marker
    refine ⟨{ m with thread := { m.thread with channel := some marker }, events := events },
      ⟨rfl, rfl, rfl, rfl, rfl⟩, ?_⟩
    simp only [exec, hop]
    exact hleave
  · refine carried_chain hmarker hshapes hchain hfits (becomes_landOn m marker landing) ?_ ?_
    · intro o m' ho
      rw [hnone] at ho
      cases ho
    -- Past the last point the frame has no address left, and its next step ends it.
    · intro m' _ hm'
      refine .arrives ⟨m', rfl, hm', ?_⟩
      simp only [step, hm'.frame, Frame.ip_jump, JumpTarget.ip?]

end Machine

/-! ## All verbs of a unit -/

def Label.VerbUse.toMarker (v : VerbUse) (origin : String) : Marker :=
  ⟨v.marker, v.label, v.span, origin⟩

section Units

variable {body : List Stmt} {u : CodeUnit} {entry : Nat × Instruction} {v : VerbUse}

/-- The instruction of a verb is a jump if the verb is local, and otherwise sends its marker. -/
theorem op_of_agrees (h : Agrees u.origin ((unitSites u.isSub u.origin body)[·]?) entry v) :
    if v.isLocal then ∃ target, entry.2.op = .jump target
    else entry.2.op = .signal (v.toMarker u.origin) := by
  obtain ⟨s, -, hlocal, hinstr⟩ := h.placed
  rw [hlocal, hinstr]
  unfold verbOperation
  cases boundary? OpenScope.label OpenScope.isLoop v.label s.around with
  | none => simp [VerbUse.toMarker]
  | some o => simp

theorem lowerStmt_call {c : Context} {q : Spot} {callee : Expr} {args : List Expr} {span : Span}
    {b b' : Build} {code : Instructions}
    (h : lowerStmt c q (.expr (.call callee args span)) b = .ok (code, b')) :
    ∃ operands drop, code = operands ++
      [placed (.call (calleeName callee) args.length (c.site q).landing) span, drop] := by
  simp only [lowerStmt, lowerExpr, Lower.bind_eq_ok, Lower.pure_eq_ok] at h
  obtain ⟨_, _, ⟨first, _, -, second, _, -, rfl, rfl⟩, rfl, rfl⟩ := h
  exact ⟨first ++ second, bare (if c.isSub then .pop else .popResult), by simp [Context.site]⟩

theorem landing_of_call (hbody : CodeOf body u) {ip : Nat} {i : Instruction} {s : Site}
    {name : String} {count : Nat} {landing : JumpTarget} (hi : u.code[ip]? = some i)
    (hs : (unitSites u.isSub u.origin body)[ip]? = some s) (hop : i.op = .call name count landing) :
    landing = s.landing := by
  have hlinked := hbody.linked hi hs
  rw [hop] at hlinked
  exact hlinked.1

/-- Where a verb with a label runs, it agrees with the dispatch points. -/
theorem agrees_with_dispatch (hbody : CodeOf body u)
    (h : Agrees u.origin ((unitSites u.isSub u.origin body)[·]?) entry v)
    (hi : u.code[entry.1]? = some entry.2) (hlabel : v.label ≠ "") {s : Site}
    (hs : (unitSites u.isSub u.origin body)[entry.1]? = some s) {m : Machine} (hm : m.Sound)
    (hu : m.frame.unit = u) (hip : m.frame.ip = some entry.1) (hchannel : m.thread.channel = none) :
    if v.isLocal then m.JumpAgrees entry.2 (v.toMarker u.origin) s.landing
    else m.SignalAgrees entry.2 (v.toMarker u.origin) s.landing := by
  subst hu
  obtain ⟨s', hs', hlocal, hinstr⟩ := h.placed
  obtain rfl : s = s' := Option.some.inj (hs.symm.trans hs')
  have hmarker : (v.toMarker m.frame.unit.origin).Proper := ⟨hlabel, v.verb, h.marked⟩
  -- The site of the verb and the frame in front of it have the same shape, so the landing of the one is
  -- at home in the other.
  have hshape : s.toShape = m.frame.shape m.thread.store 0 :=
    Option.some.inj ((shapesOf_eq hs).symm.trans (hm.shaped.at_ip hip hbody.consistent))
  have hlinked := hbody.linked hi hs
  have hop : entry.2.op = _ := congrArg Instr.op hinstr
  simp only [verbOperation, boundary?, hlabel, if_false] at hop
  rw [hlocal, boundary?, if_neg hlabel]
  cases hfind : s.around.find? (·.label = v.label) with
  | some o =>
    simp only [hfind] at hop
    rw [hop] at hlinked
    simp only [Option.isSome_some, if_true]
    exact Machine.jumpAgrees hmarker hbody.consistent hlinked.1 (hshape ▸ hlinked.2) hchannel hfind hop
  | none =>
    simp only [hfind] at hop
    rw [hop] at hlinked
    simp only [Option.isSome_none, Bool.false_eq_true, if_false]
    exact Machine.signalAgrees hmarker hbody.consistent hlinked.1 (hshape ▸ hlinked.2) hchannel hfind
      hop

end Units

/-- The static jump agrees with the dynamic dispatch. For every unit of an accepted program and every
    verb in its text: the verb becomes exactly one instruction, a jump if the resolution calls it local and
    otherwise one that sends its marker. Wherever the instruction of a verb with a label runs, in a run
    that starts with an empty channel or in any state with an empty channel, it leaves the frame and the
    channel as if the marker were registered, the frame landed where a call in place of the verb lands, and
    the dispatch points ran from there: a local verb comes to the same continuation with the channel empty
    again, and for any other one no dispatch point takes the marker, so that the frame ends with undef and
    the marker pending. -/
theorem jump_agrees_with_dispatch {origin : String} {module : Module} {p : Program} {u : CodeUnit}
    (hp : compile origin module = .ok p) (hu : u ∈ p.units) :
    (∃ body, CodeOf body u) ∧ ∀ body, CodeOf body u →
      u.resolution.verbs.map VerbUse.written = stmtsVerbs body ∧
      (∀ c q kind label span b code b', lowerStmt c q (.verb kind label span) b = .ok (code, b') →
        code.length = 1 ∧ stmtSites c q (.verb kind label span) = [c.site q]) ∧
      (∀ c q callee args span b code b',
        lowerStmt c q (.expr (.call callee args span)) b = .ok (code, b') → ∃ operands drop,
          code = operands ++
            [placed (.call (calleeName callee) args.length (c.site q).landing) span, drop]) ∧
      (∀ (ip : Nat) (i : Instruction) (s : Site) name count landing, u.code[ip]? = some i →
        (unitSites u.isSub u.origin body)[ip]? = some s → i.op = .call name count landing →
        landing = s.landing) ∧
      List.Forall₂ (fun entry v =>
        u.code[entry.1]? = some entry.2 ∧
        (if v.isLocal then ∃ target, entry.2.op = .jump target
          else entry.2.op = .signal (v.toMarker u.origin)) ∧
        (v.label ≠ "" → ∃ s, (unitSites u.isSub u.origin body)[entry.1]? = some s ∧
          ∀ limits t m, Thread.Arises t → Reachable limits t m → m.frame.unit = u →
            m.frame.ip = some entry.1 → (t.channel = none → m.thread.channel = none) ∧
            (m.thread.channel = none →
              if v.isLocal then m.JumpAgrees entry.2 (v.toMarker u.origin) s.landing
              else m.SignalAgrees entry.2 (v.toMarker u.origin) s.landing)))
        (verbsFrom 0 u.code.toList) u.resolution.verbs := by
  refine ⟨lowered_of_compile hp hu, fun body hbody => ⟨hbody.written_verbs, ?_, ?_, ?_, ?_⟩⟩
  · intro c q kind label span b code b' h
    exact ⟨length_lowerStmt _ h, by simp only [stmtSites]⟩
  · intro c q callee args span b code b' h
    exact lowerStmt_call h
  · intro ip i s name count landing hi hs hop
    exact landing_of_call hbody hi hs hop
  · have hplaced : ∀ entry ∈ verbsFrom 0 u.code.toList, u.code[entry.1]? = some entry.2 := by
      intro entry hentry
      obtain ⟨k, hk, hcode⟩ := getElem?_of_mem_verbsFrom hentry
      simpa [hk] using hcode
    refine ((List.forall₂_and_left _ _).mpr ⟨hplaced, hbody.verbs_agree⟩).imp ?_
    rintro entry v ⟨hi, hagrees⟩
    have hop := op_of_agrees hagrees
    refine ⟨hi, hop, fun hlabel => ?_⟩
    obtain ⟨s, hs, -, -⟩ := hagrees.placed
    refine ⟨s, hs, fun limits t m ht hm hunit hip => ⟨fun hempty => ?_, fun hchannel => ?_⟩⟩
    -- Only dispatch points run with a marker pending, and no verb is one.
    · refine hm.empty_channel ht hempty
        (Frame.instruction?_eq_some.mpr ⟨entry.1, hip, hunit ▸ hi⟩) fun table htable => ?_
      rw [htable] at hop
      split at hop
      · obtain ⟨target, htarget⟩ := hop
        cases htarget
      · cases hop
    · exact agrees_with_dispatch hbody hagrees hi hlabel hs (hm.sound ht) hunit hip hchannel

/-- In the script that escapes from its calls, the verb of the inner closure is not local and that of the
    main chunk is. -/
theorem escape_verbs_agree :
    Reachable Escape.limits (.new 0) (Escape.after 16) ∧
      Reachable Escape.limits (.new 0) (Escape.after 22) ∧
      (∃ i s, (Escape.after 16).frame.instruction? = some i ∧
        (unitSites true "escape" [.verb .last (Escape.label "OUT") Escape.place])[0]? = some s ∧
        (Escape.after 16).SignalAgrees i ⟨.exit, "OUT", Escape.place, "escape"⟩ s.landing) ∧
      ∃ i s, (Escape.after 22).frame.instruction? = some i ∧
        (unitSites false "escape" Escape.script.body)[16]? = some s ∧
        (Escape.after 22).JumpAgrees i ⟨.exit, "SKIP", Escape.place, "escape"⟩ s.landing := by
  have hinner := Escape.reachable_after (n := 16) (by decide +kernel)
  have hmain := Escape.reachable_after (n := 22) (by decide +kernel)
  refine ⟨hinner, hmain, ?_, ?_⟩
  · obtain ⟨-, -, -, -, hverbs⟩ := (jump_agrees_with_dispatch Escape.compile_script
      (u := (Escape.after 16).frame.unit) (.tail _ (.head _))).2
      [.verb .last (Escape.label "OUT") Escape.place] ⟨rfl, _, ⟨[], [], [], []⟩, _, rfl, rfl⟩
    obtain ⟨-, -, hlabeled⟩ := (List.forall₂_cons.mp hverbs).1
    obtain ⟨s, hs, hagrees⟩ := hlabeled (by decide)
    exact ⟨_, s, rfl, hs, (hagrees _ _ _ (.new 0) hinner rfl rfl).2 rfl⟩
  · obtain ⟨-, -, -, -, hverbs⟩ := (jump_agrees_with_dispatch Escape.compile_script
      (u := Escape.program.main) (.head _)).2
      Escape.script.body ⟨rfl, _, ⟨[], [], [], []⟩, _, rfl, rfl⟩
    obtain ⟨-, -, hlabeled⟩ := (List.forall₂_cons.mp hverbs).1
    obtain ⟨s, hs, hagrees⟩ := hlabeled (by decide)
    have hunit : (Escape.after 22).frame.unit = Escape.program.main := by with_unfolding_all rfl
    have hip : (Escape.after 22).frame.ip = some 16 := by decide +kernel
    have hempty : (Escape.after 22).thread.channel = none := by decide +kernel
    refine ⟨_, s, Frame.instruction?_eq_some.mpr ⟨16, hip, ?_⟩, hs,
      (hagrees _ _ _ (.new 0) hmain hunit hip).2 hempty⟩
    rw [hunit]
    rfl

end KestrelLang
