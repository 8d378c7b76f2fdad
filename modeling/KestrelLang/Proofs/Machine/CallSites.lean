import KestrelLang.Proofs.Machine.Limits

/-! # The calls that a fault unwinds through

A fault leaves the frames one by one. The first instruction with a place gives it its place, and the calls further
out are listed, but for those that stand at the very place of the fault.

* `Fault.unwound` — a fault that has left the instructions at some sites.
* `callSites_unwound` — which of the sites it lists.
* `Machine.onWayOut` — the frames that a failure of the next step leaves.
* `unwinds_step` — suspended frames are stopped at calls, and a fault leaves the frames on its way out.
* `call_sites_are_unwound_callers` — the calls that the fault of a run lists. -/

namespace KestrelLang

open KestrelLang.Code

/-! ## Faults on their way out -/

namespace Fault

/-- The fault of a cause once it has left the instructions at `sites`, the innermost first. -/
def unwound (cause : FaultCause) (sites : List CallSite) : Fault :=
  sites.foldl (fun f site => f.throughCall site.origin site.span) (.ofCause cause)

/-- A fault at `span` lists the call: it has a place, and another one than the fault. -/
def lists (span : Span) (site : CallSite) : Bool := site.span ≠ .zero ∧ site.span ≠ span

theorem throughCall_ofCause (cause : FaultCause) (origin : String) (span : Span) :
    (ofCause cause).throughCall origin span = ⟨cause, span, origin, []⟩ := by
  simp [throughCall, locate, ofCause, Span.isZero]

theorem throughCall_of_located {f : Fault} (h : f.span ≠ .zero) (hroom : f.callSites.length ≤ maxCallSites)
    (site : CallSite) :
    f.throughCall site.origin site.span =
      { f with callSites := (f.callSites ++ [site].filter (lists f.span)).take maxCallSites } := by
  have hlocate : f.locate site.origin site.span = f := by simp [locate, Span.isZero, h]
  have hsame : { f with callSites := f.callSites.take maxCallSites } = f := by
    rw [List.take_of_length_le hroom]
  simp only [throughCall, hlocate]
  -- A call at the place of the fault is not listed, nor is one without a place, nor one too many.
  by_cases heq : f.span = site.span
  · simp [heq.symm, lists, hsame]
  rw [if_neg heq]
  by_cases hzero : site.span = .zero
  · simp [addCallSite, Span.isZero, hzero, lists, hsame]
  have hlists : lists f.span site = true := by simp [lists, hzero, Ne.symm heq]
  by_cases hfull : maxCallSites ≤ f.callSites.length
  · have hlength : f.callSites.length = maxCallSites := Nat.le_antisymm hroom hfull
    simp [addCallSite, hlists, ← hlength]
  · have hfits : (f.callSites ++ [site]).length ≤ maxCallSites := by simp; omega
    simp [addCallSite, Span.isZero, hzero, hlists, hfull, List.take_of_length_le hfits]

theorem take_take_append {α : Type} (n : Nat) (xs ys : List α) :
    (xs.take n ++ ys).take n = (xs ++ ys).take n := by
  simp only [List.take_append, List.take_take, List.length_take, Nat.min_self]
  congr 2
  omega

/-- A fault with a place keeps it, and lists the first calls that are not at this place. -/
theorem foldl_of_located {f : Fault} (h : f.span ≠ .zero) (hroom : f.callSites.length ≤ maxCallSites)
    (sites : List CallSite) :
    sites.foldl (fun f site => f.throughCall site.origin site.span) f =
      { f with callSites := (f.callSites ++ sites.filter (lists f.span)).take maxCallSites } := by
  induction sites generalizing f with
  | nil => simp [List.take_of_length_le hroom]
  | cons site sites ih =>
    -- The list is cut after every call, which is the same as cutting it once.
    rw [List.foldl_cons, throughCall_of_located h hroom, ih]
    · rw [take_take_append, List.append_assoc, ← List.filter_append, List.singleton_append]
    · exact h
    · exact List.length_take_le _ _

theorem foldl_of_nowhere {f : Fault} (hf : f.span = .zero) (hsites : f.callSites = []) {sites : List CallSite}
    (h : ∀ site ∈ sites, site.span = .zero) :
    ∃ origin, sites.foldl (fun f site => f.throughCall site.origin site.span) f = ⟨f.cause, .zero, origin, []⟩ := by
  induction sites generalizing f with
  | nil =>
    obtain ⟨cause, span, origin, callSites⟩ := f
    obtain rfl : span = .zero := hf
    obtain rfl : callSites = [] := hsites
    exact ⟨origin, rfl⟩
  | cons site sites ih =>
    obtain ⟨hsite, hrest⟩ := List.forall_mem_cons.mp h
    have hthrough : f.throughCall site.origin site.span = ⟨f.cause, .zero, site.origin, []⟩ := by
      simp [throughCall, locate, Span.isZero, hf, hsite, hsites]
    rw [List.foldl_cons, hthrough]
    exact ih rfl rfl hrest

theorem unwound_of_nowhere (cause : FaultCause) {sites : List CallSite} (h : ∀ site ∈ sites, site.span = .zero) :
    (unwound cause sites).span = .zero ∧ (unwound cause sites).callSites = [] := by
  obtain ⟨origin, hfold⟩ := foldl_of_nowhere (f := ofCause cause) rfl rfl h
  rw [unwound, hfold]
  exact ⟨rfl, rfl⟩

/-- The first instruction with a place gives it to the fault, and the calls after it are listed. -/
theorem unwound_of_located (cause : FaultCause) {above below : List CallSite} {site : CallSite}
    (h : ∀ site ∈ above, site.span = .zero) (hsite : site.span ≠ .zero) :
    unwound cause (above ++ site :: below) =
      ⟨cause, site.span, site.origin, (below.filter (lists site.span)).take maxCallSites⟩ := by
  obtain ⟨origin, hfold⟩ := foldl_of_nowhere (f := ofCause cause) rfl rfl h
  have hthrough : throughCall ⟨cause, .zero, origin, []⟩ site.origin site.span =
      ⟨cause, site.span, site.origin, []⟩ := by simp [throughCall, locate, Span.isZero]
  rw [unwound, List.foldl_append, hfold, List.foldl_cons]
  show List.foldl _ (throughCall ⟨cause, .zero, origin, []⟩ site.origin site.span) below = _
  rw [hthrough, foldl_of_located (f := ⟨cause, site.span, site.origin, []⟩) hsite (by simp), List.nil_append]

end Fault

/-! ## Frames on the way out -/

/-- The place of the instruction that a frame is at, and the text it stands in. -/
def Frame.callSite (f : Frame) : CallSite := ⟨f.unit.origin, (f.instruction?.map (·.span)).getD .zero⟩

def Frame.AtCall (f : Frame) : Prop :=
  ∃ name count landing span, f.instruction? = some ⟨.call name count landing, span⟩

/-- The frames that a failure of the next step leaves, the innermost first. A frame that ends with the step is gone
    when its tail call fails. -/
def Machine.onWayOut (m : Machine) : List Frame :=
  match m.frame.instruction? with
  | some i =>
    if i.op.endsFrame then m.callers.map (·.frame) else m.frame :: m.callers.map (·.frame)
  | none => m.callers.map (·.frame)

/-- The call that a suspended frame is stopped at. -/
def Suspended.callSite (s : Suspended) : CallSite := ⟨s.frame.unit.origin, s.site⟩

def Suspended.AtCall (s : Suspended) : Prop :=
  ∃ name count, s.frame.instruction? = some ⟨.call name count s.landing, s.site⟩

theorem Suspended.AtCall.callSite {s : Suspended} (h : s.AtCall) : s.frame.callSite = s.callSite := by
  obtain ⟨name, count, hi⟩ := h
  simp [Frame.callSite, Suspended.callSite, hi]

theorem callSites_of_atCall {callers : List Suspended} (h : ∀ s ∈ callers, s.AtCall) :
    (callers.map (·.frame)).map Frame.callSite = callers.map Suspended.callSite := by
  rw [List.map_map]
  exact List.map_congr_left fun s hs => (h s hs).callSite

/-- A run that goes on has its suspended frames stopped at calls, and a fault that ended it has left the instructions
    at `sites`. -/
def Next.Unwinds (sites : List CallSite) : Next → Prop
  | .running m => ∀ s ∈ m.callers, s.AtCall
  | .done _ (.failure (.fault f)) => ∃ cause, f = .unwound cause sites
  | .done _ _ => True

namespace Machine

variable {m : Machine} {limits : Limits} {callers : List Suspended} {next : Next}

theorem leaveCalls_fault (f : Fault) (callers : List Suspended) :
    callers.foldl leaveCall (.fault f) =
      .fault ((callers.map Suspended.callSite).foldl (fun f site => f.throughCall site.origin site.span) f) := by
  induction callers generalizing f with
  | nil => rfl
  | cons s rest ih => exact ih _

theorem leaveCalls_of_not_fault {failure : Failure} (h : ∀ f, failure ≠ .fault f) (callers : List Suspended) :
    callers.foldl leaveCall failure = failure := by
  induction callers with
  | nil => rfl
  | cons s rest ih =>
    have hleave : leaveCall failure s = failure := by
      cases failure with
      | fault f => exact absurd rfl (h f)
      | _ => rfl
    rw [List.foldl_cons, hleave, ih]

theorem unwinds_raise {failure : Failure} (h : ∀ f, failure ≠ .fault f) (sites : List CallSite) :
    (m.raise callers failure).Unwinds sites := by
  unfold raise
  rw [leaveCalls_of_not_fault h]
  cases failure with
  | fault f => exact absurd rfl (h f)
  | _ => trivial

theorem unwinds_raiseTrouble (t : Trouble) :
    (m.raiseTrouble callers t).Unwinds (callers.map Suspended.callSite) := by
  cases t with
  | fault cause =>
    simp only [raiseTrouble, raise, leaveCalls_fault]
    exact ⟨cause, rfl⟩
  | failed message => exact unwinds_raise (by simp) _
  | abort => trivial

theorem unwinds_raiseHere (span : Span) (t : Trouble) :
    (m.raiseHere span t).Unwinds (⟨m.frame.unit.origin, span⟩ :: m.callers.map Suspended.callSite) := by
  cases t with
  | fault cause =>
    simp only [raiseHere, raise, leaveCalls_fault]
    refine ⟨cause, ?_⟩
    rw [Fault.unwound, List.foldl_cons, Fault.throughCall_ofCause]
  | failed message => exact unwinds_raise (by simp) _
  | abort => trivial

theorem unwinds_deliver (h : ∀ s ∈ callers, s.AtCall) (v : Value) (sites : List CallSite) :
    (m.deliver callers v).Unwinds sites := by
  cases callers with
  | nil => trivial
  | cons s rest => exact (List.forall_mem_cons.mp h).2

theorem Entered.unwinds {callee : Value} {args : List Value} (h : m.Entered limits callers args callee next)
    (hcallers : ∀ s ∈ callers, s.AtCall) : next.Unwinds (callers.map Suspended.callSite) := by
  cases h with
  | starts => exact hcallers
  | noCode | arity | notCallable | fails => exact unwinds_raiseTrouble _
  | hollow => trivial
  | delivers => exact unwinds_deliver hcallers _ _

theorem Called.unwinds {callee : Value} {args : List Value} (h : m.Called limits callers callee args next)
    (hcallers : ∀ s ∈ callers, s.AtCall) : next.Unwinds (callers.map Suspended.callSite) := by
  cases h with
  | refused => exact unwinds_raiseTrouble _
  | admitted _ hentered => exact hentered.unwinds hcallers

theorem Left.unwinds {v : Value} (h : m.Left limits v next) (hcallers : ∀ s ∈ m.callers, s.AtCall) :
    next.Unwinds (m.callers.map Suspended.callSite) := by
  cases h with
  | ended => trivial
  | astray => exact unwinds_raise (by simp) _
  | replaced _ _ _ hentered => exact hentered.unwinds hcallers
  | delivers => exact unwinds_deliver hcallers _ _

/-- The site of the instruction is left first, unless the frame has ended. -/
theorem Executed.unwinds {i : Instruction} (h : m.Executed limits i next) (hi : m.frame.instruction? = some i)
    (hcallers : ∀ s ∈ m.callers, s.AtCall) :
    next.Unwinds (if i.op.endsFrame then m.callers.map Suspended.callSite
      else ⟨m.frame.unit.origin, i.span⟩ :: m.callers.map Suspended.callSite) := by
  obtain ⟨op, span⟩ := i
  cases h with
  | within | dispatches => exact hcallers
  | aborts => trivial
  | unbound hop =>
    obtain rfl := hop
    exact unwinds_raiseHere _ _
  | fails hstays =>
    rw [hstays]
    exact unwinds_raiseHere _ _
  | @calls name count landing _ rest _ _ hop _ hcalled =>
    obtain rfl := hop
    -- The frame that makes the call becomes the innermost caller, at this very instruction.
    exact hcalled.unwinds (List.forall_mem_cons.mpr ⟨⟨name, count, hi⟩, hcallers⟩)
  | collides | occupied => exact unwinds_raise (by simp) _
  | returns hop _ hleft | signals hop _ hleft | parks hop _ _ hleft =>
    obtain rfl := hop
    exact hleft.unwinds hcallers

theorem callSites_onWayOut (h : ∀ s ∈ m.callers, s.AtCall) :
    m.onWayOut.map Frame.callSite =
      match m.frame.instruction? with
      | some i =>
        if i.op.endsFrame then m.callers.map Suspended.callSite
        else ⟨m.frame.unit.origin, i.span⟩ :: m.callers.map Suspended.callSite
      | none => m.callers.map Suspended.callSite := by
  unfold onWayOut
  cases hi : m.frame.instruction? with
  | none => exact callSites_of_atCall h
  | some i =>
    dsimp only
    split
    · exact callSites_of_atCall h
    · rw [List.map_cons, callSites_of_atCall h]
      simp [Frame.callSite, hi]

end Machine

/-- A step keeps suspended frames at their calls, and a fault leaves the frames on its way out. -/
theorem unwinds_step (limits : Limits) {m : Machine} (hcallers : ∀ s ∈ m.callers, s.AtCall) :
    (step limits m).Unwinds (m.onWayOut.map Frame.callSite) := by
  rw [Machine.callSites_onWayOut hcallers]
  have h := stepped limits m
  generalize step limits m = next at h ⊢
  cases h with
  | ends hip =>
    rw [show m.frame.instruction? = none by rw [Frame.instruction?, hip]; rfl]
    exact (Machine.left ..).unwinds hcallers
  | strays | stops => exact Machine.unwinds_raise (by simp) _
  | runs hi =>
    rw [hi]
    exact (Machine.executed ..).unwinds (m := m.ticked limits.interval) hi hcallers

/-! ## Runs -/

theorem Next.last_step {limits : Limits} {fuel : Nat} {next : Next} {m : Machine} {outcome : Outcome}
    (h : next.forward limits fuel = .done m outcome) :
    next = .done m outcome ∨
      ∃ n m₁, next.forward limits n = .running m₁ ∧ step limits m₁ = .done m outcome := by
  induction fuel generalizing next with
  | zero => exact .inl h
  | succ fuel ih =>
    cases next with
    | done m' outcome' => exact .inl h
    | running m' =>
      obtain hstep | ⟨n, m₁, hm₁, hstep⟩ := ih h
      · exact .inr ⟨0, m', rfl, hstep⟩
      · exact .inr ⟨n + 1, m₁, hm₁, hstep⟩

theorem Opening.unwinds {t : Thread} {start : Limits → Next} (h : Opening t start) (limits : Limits) :
    (start limits).Unwinds [] := by
  cases h with
  | program p => exact List.forall_mem_nil _
  | call callee args => exact (Machine.called ..).unwinds (List.forall_mem_nil _)

/-- The frames of a run that goes on are stopped at calls, but for the innermost one. -/
theorem Opening.atCall {t : Thread} {start : Limits → Next} (h : Opening t start) {limits : Limits} {n : Nat}
    {m : Machine} (hm : (start limits).forward limits n = .running m) : ∀ s ∈ m.callers, s.AtCall := by
  -- Which sites a fault would leave differs from step to step, so the invariant forgets them.
  have hkept : ∃ sites, ((start limits).forward limits n).Unwinds sites := by
    refine Next.forward_invariant (P := fun next => ∃ sites, next.Unwinds sites) ?_ ⟨[], h.unwinds limits⟩ n
    rintro m ⟨sites, hm⟩
    exact ⟨_, unwinds_step limits hm⟩
  rw [hm] at hkept
  exact hkept.choose_spec

theorem Machine.atCall_onWayOut {m : Machine} (h : ∀ s ∈ m.callers, s.AtCall) :
    ∀ f ∈ m.onWayOut.tail, f.AtCall := by
  have hcallers : ∀ f ∈ m.callers.map (·.frame), f.AtCall := by
    intro f hf
    obtain ⟨s, hs, rfl⟩ := List.mem_map.mp hf
    obtain ⟨name, count, hi⟩ := h s hs
    exact ⟨name, count, _, _, hi⟩
  intro f hf
  unfold onWayOut at hf
  repeat' split at hf
  all_goals first
    | exact hcallers f hf
    | exact hcallers f (List.mem_of_mem_tail hf)

/-- The fault of a report is that of the run, unless it is about a label that no scope took. -/
theorem Thread.fault_of_report {m : Machine} {outcome : Outcome} {f : Fault}
    (h : (Thread.report m outcome).outcome = .failure (.fault f)) (hkind : f.kind ≠ .unmatchedLabel) :
    outcome = .failure (.fault f) := by
  unfold Thread.report at h
  split at h
  · cases h
    exact absurd rfl hkind
  · cases h
  · exact h
  · cases h

/-! ## The statement -/

/-- What a fault says about the frames that it left, the innermost first. Its place is that of the first instruction
    that has one; the calls of the frames further out are listed, but for those at the place of the fault itself,
    and no more than eight of them. -/
structure Fault.TracesBack (f : Fault) (frames : List Frame) : Prop where
  nowhere : (∀ x ∈ frames, x.callSite.span = .zero) → f.span = .zero ∧ f.callSites = []
  located : ∀ above g below, frames = above ++ g :: below → (∀ x ∈ above, x.callSite.span = .zero) →
    g.callSite.span ≠ .zero →
      f.span = g.callSite.span ∧ f.origin = g.callSite.origin ∧
      f.callSites =
        ((below.map Frame.callSite).filter fun site => site.span ≠ .zero ∧ site.span ≠ f.span).take 8 ∧
      ((∀ x ∈ below, x.callSite.span ≠ .zero ∧ x.callSite.span ≠ f.span) →
        f.callSites = (below.map Frame.callSite).take 8)

theorem Fault.tracesBack_unwound (cause : FaultCause) (frames : List Frame) :
    (Fault.unwound cause (frames.map Frame.callSite)).TracesBack frames := by
  constructor
  · intro hnowhere
    exact unwound_of_nowhere cause (List.forall_mem_map.mpr hnowhere)
  · rintro above g below rfl habove hg
    rw [List.map_append, List.map_cons, unwound_of_located cause (List.forall_mem_map.mpr habove) hg]
    refine ⟨rfl, rfl, rfl, fun hall => ?_⟩
    have hlists : ∀ site ∈ below.map Frame.callSite, lists g.callSite.span site = true := by
      refine List.forall_mem_map.mpr fun x hx => ?_
      simpa [lists] using hall x hx
    show (List.filter (lists g.callSite.span) _).take maxCallSites = _
    rw [List.filter_eq_self.mpr hlists]
    rfl

/-- The calls that a fault lists are those of the callers that it unwound through. However a run was started, and
    whatever its program and its thread: if it fails with a fault, other than that of a label that no scope took,
    then a last step raised it, and the frames on its way out are all but the first stopped at calls. The first
    instruction on the way with a place is the place of the fault. Of the calls further out it lists the first eight
    that have a place, and not that of the fault; so these are the calls of all callers up to the eighth, if no caller
    is stopped at the place where the fault was met. -/
theorem call_sites_are_unwound_callers {t : Thread} {start : Limits → Next} (hstart : Opening t start)
    {limits : Limits} {fuel : Nat} {r : Report} {f : Fault}
    (hr : Thread.finish limits fuel (start limits) = some r) (hf : r.outcome = .failure (.fault f))
    (hkind : f.kind ≠ .unmatchedLabel) :
    ((∃ m, start limits = .done m (.failure (.fault f))) ∧ f.TracesBack []) ∨
      ∃ n m m', (start limits).forward limits n = .running m ∧
        step limits m = .done m' (.failure (.fault f)) ∧
        (∀ x ∈ m.onWayOut.tail, x.AtCall) ∧ f.TracesBack m.onWayOut := by
  obtain ⟨m', outcome, hend, rfl⟩ := Thread.done_of_finish hr
  obtain rfl := Thread.fault_of_report hf hkind
  obtain hover | ⟨n, m, hm, hstep⟩ := Next.last_step hend
  -- A host's call can fail before there is any frame to leave.
  · have hunwinds := hstart.unwinds limits
    rw [hover] at hunwinds
    obtain ⟨cause, rfl⟩ := hunwinds
    exact .inl ⟨⟨m', hover⟩, Fault.tracesBack_unwound cause []⟩
  · have hcalls := hstart.atCall hm
    have hunwinds := unwinds_step limits hcalls
    rw [hstep] at hunwinds
    obtain ⟨cause, rfl⟩ := hunwinds
    exact .inr ⟨n, m, m', hm, hstep, Machine.atCall_onWayOut hcalls, Fault.tracesBack_unwound cause _⟩

/-! ## Runs to look at -/

namespace Traced

def line (n : Int) : Span := ⟨⟨n, 1⟩, ⟨n, 2⟩⟩

def callOn (n : Int) : Stmt := .expr (.call (.ident "f" (line n)) [] (line n))

/-- A sub that calls itself on line one, and a call of it on line two. -/
def recursive : Module := ⟨[.sub ⟨"f", line 1⟩ [] (.mk [callOn 1] (line 1)) (line 1), callOn 2], line 1⟩

/-- A sub that reads on line one a name that nothing binds, and a call of it on line two. -/
def unbound : Module :=
  ⟨[.sub ⟨"f", line 1⟩ [] (.mk [.expr (.ident "z" (line 1))] (line 1)) (line 1), callOn 2], line 1⟩

def programOf (script : Module) : Program :=
  match compile "traced" script with
  | .ok p => p
  | .error _ => default

def limits : Limits := ⟨some 2, 4, none, none⟩

def deepest : Machine := (((Thread.new 0).startProgram (programOf recursive)).after limits 5).getD default

theorem after_eq : ((Thread.new 0).startProgram (programOf recursive)).after limits 5 = some deepest := by
  have hruns : (((Thread.new 0).startProgram (programOf recursive)).after limits 5).isSome := by decide +kernel
  obtain ⟨m, hm⟩ := Option.isSome_iff_exists.mp hruns
  rw [deepest, hm]
  rfl

def fault? : Next → Option Fault
  | .done _ (.failure (.fault f)) => some f
  | _ => none

theorem done_of_fault? {next : Next} {f : Fault} (h : fault? next = some f) :
    ∃ m, next = .done m (.failure (.fault f)) := by
  unfold fault? at h
  split at h
  · cases h
    exact ⟨_, rfl⟩
  · cases h

end Traced

/-- The name that nothing binds is met on line one, and the fault lists the call on line two. -/
theorem unbound_name_lists_its_caller :
    ∃ r f, (Thread.new 0).run Traced.limits 20 (Traced.programOf Traced.unbound) = some r ∧
      r.outcome = .failure (.fault f) ∧ f.kind ≠ .unmatchedLabel ∧
      f.callSites = [⟨"traced", Traced.line 2⟩] ∧ ∃ m : Machine, f.TracesBack m.onWayOut := by
  have hfault : Traced.fault?
      (((Thread.new 0).startProgram (Traced.programOf Traced.unbound)).forward Traced.limits 20) =
      some ⟨.undefinedVariable "z", Traced.line 1, "traced", [⟨"traced", Traced.line 2⟩]⟩ := by decide +kernel
  obtain ⟨m', hend⟩ := Traced.done_of_fault? hfault
  have hr := Thread.finish_of_done hend
  refine ⟨_, _, hr, rfl, by decide, rfl, ?_⟩
  obtain ⟨⟨m, hover⟩, -⟩ | ⟨n, m, m', -, -, -, htraces⟩ :=
    call_sites_are_unwound_callers (.program (Traced.programOf Traced.unbound)) hr rfl (by decide)
  · cases hover
  · exact ⟨m, htraces⟩

/-- In a recursion that goes too deep, the call that is refused and the call of the caller stand at one place, and
    the fault does not list the latter. -/
theorem recursion_hides_caller :
    ∃ m m' f,
      ((Thread.new 0).startProgram (Traced.programOf Traced.recursive)).after Traced.limits 5 = some m ∧
      step Traced.limits m = .done m' (.failure (.fault f)) ∧ f.kind ≠ .unmatchedLabel ∧
      m.onWayOut.head?.map Frame.callSite = some ⟨f.origin, f.span⟩ ∧
      (∀ x ∈ m.onWayOut, x.callSite.span ≠ .zero) ∧
      f.callSites ≠ (m.onWayOut.tail.map Frame.callSite).take 8 := by
  have hfault : Traced.fault? (step Traced.limits Traced.deepest) =
      some ⟨.depthExceeded 2, Traced.line 1, "traced", [⟨"traced", Traced.line 2⟩]⟩ := by decide +kernel
  obtain ⟨m', hstep⟩ := Traced.done_of_fault? hfault
  refine ⟨Traced.deepest, m', _, Traced.after_eq, hstep, ?_, ?_, ?_, ?_⟩
  all_goals decide +kernel

end KestrelLang
