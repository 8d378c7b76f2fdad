import KestrelLang.Proofs.Machine.Likeness

/-! # Runs on one thread, one after the other

* `Report.Alike` — a host cannot tell the reports apart, and the threads they leave behind are alike.
* `alike_iterate`, `Thread.Alike.run`, `Thread.Alike.call` — runs on alike threads give alike reports.
* `Thread.Uses` — what a host did with a thread, step by step.
* `no_control_state_leaks` — every run that returns leaves a cleared thread, and the next one depends on nothing
  but what the globals and its arguments reach. -/

namespace KestrelLang

open KestrelLang.Code

/-! ## Runs -/

/-- The ends of two runs: the threads and what a host sees are alike, and so are the outcomes. -/
structure EndsAlike (r : Pairing) (x y : Machine × Outcome) : Prop where
  outside : x.1.AlikeOutside r y.1
  outcome : x.2.Alike r y.2

/-- Runs that go on alike both end, or neither does within the fuel. -/
theorem alike_iterate {r : Pairing} (limits : Limits) (fuel : Nat) {a b : Next} (h : a.AlikeFrom r b)
    (ha : a.Level) :
    Option.Rel (fun x y => ∃ r', r.Grows r' ∧ EndsAlike r' x y) (iterate limits fuel a)
      (iterate limits fuel b) := by
  induction fuel generalizing r a b with
  | zero =>
    obtain ⟨r', hgrows, hab⟩ := h
    cases hab with
    | running _ => exact .none
    | done houtside houtcome => exact .some ⟨r', hgrows, houtside, houtcome⟩
  | succ fuel ih =>
    obtain ⟨r', hgrows, hab⟩ := h
    cases hab with
    | running hmn => exact ih ((alike_step limits hmn ha).after hgrows) (level_step ha)
    | done houtside houtcome => exact .some ⟨r', hgrows, houtside, houtcome⟩

/-- The reports say the same, up to the pairing, and the threads they leave behind are alike. -/
structure Report.Alike (r : Pairing) (x y : Report) : Prop where
  thread : x.thread.Alike r y.thread
  outcome : x.outcome.Alike r y.outcome
  steps : x.steps = y.steps
  polls : x.polls = y.polls
  out : x.out = y.out
  events : x.events = y.events

/-- Two runs report alike, under a pairing that grew out of `r`, or neither comes to an end. -/
def ReportsAlike (r : Pairing) : Option Report → Option Report → Prop :=
  Option.Rel fun x y => ∃ r', r.Grows r' ∧ x.Alike r' y

namespace Thread

variable {r : Pairing} {t u : Thread} {limits : Limits}

theorem Alike.grow_store (h : t.Alike r u) {s₁ s₂ : Store} (hs : s₁.Alike r s₂) :
    Thread.Alike r { t with store := s₁ } { u with store := s₂ } :=
  h.withStore (.refl r) hs

theorem alike_report {m n : Machine} {o o' : Outcome} (h : m.AlikeOutside r n) (ho : o.Alike r o') :
    (report m o).Alike r (report n o') := by
  have hevents : m.events.reverse = n.events.reverse := by rw [h.events]
  cases ho with
  | value hv =>
    unfold report
    rw [h.thread.channel]
    cases n.thread.channel with
    | none => exact ⟨h.thread, .value hv, h.steps, h.polls, h.out, hevents⟩
    | some marker =>
      refine ⟨⟨h.thread.id, h.thread.store, h.thread.roots, rfl, h.thread.slots, h.thread.depth⟩,
        .failure _, h.steps, h.polls, h.out, ?_⟩
      simp only [Machine.note, h.thread.id, h.events]
  | failure f =>
    exact ⟨⟨h.thread.id, h.thread.store, h.thread.roots, rfl, ⟨rfl, rfl⟩, rfl⟩, .failure f, h.steps, h.polls, h.out,
      hevents⟩
  | aborted =>
    exact ⟨⟨h.thread.id, h.thread.store, h.thread.roots, h.thread.channel, h.thread.slots, rfl⟩, .aborted, h.steps,
      h.polls, h.out, hevents⟩

theorem alike_finish (limits : Limits) {a b : Next} (h : a.AlikeFrom r b) (ha : a.Level) (fuel : Nat) :
    ReportsAlike r (finish limits fuel a) (finish limits fuel b) := by
  unfold ReportsAlike finish
  obtain ⟨hx, hy⟩ | ⟨x, y, hx, hy, r', hgrows, hends⟩ :=
    option_rel_iff.mp (alike_iterate limits fuel h ha)
  · rw [hx, hy]
    exact .none
  · rw [hx, hy]
    exact .some ⟨r', hgrows, alike_report hends.outside hends.outcome⟩

theorem Alike.load (h : t.Alike r u) (p : Program) : (t.load p).Alike r (u.load p) := by
  have hfold : ∀ (units : List CodeUnit) (s₁ s₂ : Store), s₁.Alike r s₂ →
      (units.foldl loadSub s₁).Alike r (units.foldl loadSub s₂) := by
    intro units
    induction units with
    | nil => exact fun _ _ hs => hs
    | cons unit units ih =>
      intro s₁ s₂ hs
      have hsub : Value.Alike r (.sub ⟨unit.name, unit.params, globals, some unit, unit.span⟩)
          (.sub ⟨unit.name, unit.params, globals, some unit, unit.span⟩) := .sub h.roots
      exact ih _ _ (hs.define h.roots hsub unit.name)
  exact h.grow_store (hfold p.subs _ _ h.store)

theorem Alike.startProgram (h : t.Alike r u) (p : Program) :
    (t.startProgram p).Alike r (u.startProgram p) := by
  have hload := h.load p
  have hframe : Frame.Alike r (Frame.start p.main globals ((t.load p).store.depth globals) [])
      (Frame.start p.main globals ((u.load p).store.depth globals) []) :=
    ⟨rfl, h.roots, hload.store.depth h.roots, .nil, .nil, .nil, .plain trivial, rfl⟩
  exact .running ⟨⟨hload, rfl, rfl, rfl, rfl, rfl⟩, hframe, .nil⟩

theorem Alike.startCall (h : t.Alike r u) {callee callee' : Value} (hcallee : callee.Alike r callee')
    {args args' : List Value} (hargs : ValuesAlike r args args') :
    (t.startCall limits callee args).AlikeFrom r (u.startCall limits callee' args') := by
  have houtside : (t.machine .call).AlikeOutside r (u.machine .call) := ⟨h, rfl, rfl, rfl, rfl, rfl⟩
  exact Machine.alike_call houtside .nil hcallee hargs

theorem Alike.run (h : t.Alike r u) (ht : t.AtRest) {origin : String} {m : Module} {p : Program}
    (hp : compile origin m = .ok p) (fuel : Nat) :
    ReportsAlike r (t.run limits fuel p) (u.run limits fuel p) :=
  alike_finish limits (h.startProgram p).now (level_startProgram ht hp) fuel

theorem Alike.call (h : t.Alike r u) (ht : t.AtRest) {args args' : List Value}
    (hargs : ValuesAlike r args args') (name : String) (fuel : Nat) :
    ReportsAlike r (t.call limits fuel name args) (u.call limits fuel name args') := by
  unfold Thread.call
  obtain ⟨hx, hy⟩ | ⟨v, w, hx, hy, hvw⟩ := option_rel_iff.mp (alike_get? h.store h.roots name)
  · rw [hx, hy]
    exact .some ⟨r, .refl r, h, .failure _, rfl, rfl, rfl, rfl⟩
  · rw [hx, hy]
    exact alike_finish limits (h.startCall hvw hargs) (level_startCall ht ..) fuel

/-! ## Histories -/

/-- A host runs an accepted program, or calls a name that is bound, and gets a report. -/
inductive Use (t : Thread) : Report → Prop
  | run {limits : Limits} {fuel : Nat} {origin : String} {m : Module} {p : Program} {x : Report} :
    compile origin m = .ok p → t.run limits fuel p = some x → Use t x
  | call {limits : Limits} {fuel : Nat} {name : String} {callee : Value} {args : List Value}
      {x : Report} :
    t.store.get? name globals = some callee → t.call limits fuel name args = some x → Use t x

/-- A host uses a thread again and again; each use starts from the thread that the one before left. -/
inductive Uses : Thread → List Report → Thread → Prop
  | nil (t : Thread) : Uses t [] t
  | cons {t u : Thread} {x : Report} {xs : List Report} : t.Use x → Uses x.thread xs u →
      Uses t (x :: xs) u

theorem AtRest.use (ht : t.AtRest) {x : Report} (h : t.Use x) : Settled x := by
  cases h with
  | run hp hx => exact ht.run hp hx
  | call hname hx => exact ht.call hname hx

theorem AtRest.uses (ht : t.AtRest) {xs : List Report} (h : t.Uses xs u) :
    (∀ x ∈ xs, Settled x) ∧ u.AtRest ∧ ∀ x ∈ xs.getLast?, x.thread = u := by
  induction h with
  | nil t => exact ⟨List.forall_mem_nil _, ht, fun _ hnone => nomatch hnone⟩
  | @cons t u x xs hx hrest ih =>
    have hsettled := ht.use hx
    obtain ⟨hall, hrested, hlast⟩ := ih hsettled.rest
    refine ⟨List.forall_mem_cons.mpr ⟨hsettled, hall⟩, hrested, fun y hy => ?_⟩
    cases hrest with
    | nil =>
      cases hy
      rfl
    | cons _ _ => exact hlast y hy

end Thread

/-! ## The statement -/

/-- No run leaks control state into the next. On a thread at rest, whatever its channel holds, every run
    of an accepted program and every call of a bound name that returns, with a value or a failure, leaves no
    marker, no parked tail call and no open call; so does every step of a history. Only a run that is cut off
    for what no machine can do may leave the marker that it found, and there, too, no call is open and none is
    parked. And if, after two histories, the stores are alike as far as a pairing of the globals reaches, then
    whatever the host does next gives alike reports and leaves alike threads. -/
theorem no_control_state_leaks {t : Thread} (ht : t.AtRest) :
    (∀ limits fuel origin module p x, compile origin module = .ok p → t.run limits fuel p = some x →
      x.thread.trampoline = none ∧ x.thread.depth = 0 ∧ (x.outcome.Returned → x.thread.channel = none)) ∧
    (∀ limits fuel name callee args x, t.store.get? name globals = some callee →
      t.call limits fuel name args = some x →
      x.thread.trampoline = none ∧ x.thread.depth = 0 ∧ (x.outcome.Returned → x.thread.channel = none)) ∧
    (∀ xs (u : Thread), t.Uses xs u →
      (∀ x ∈ xs, x.thread.AtRest ∧ (x.outcome.Returned → x.thread.Cleared)) ∧ u.AtRest ∧
        ∀ x ∈ xs.getLast?, x.outcome.Returned → u.Cleared) ∧
    (∀ (t' : Thread) xs u xs' u', t'.AtRest → t.Uses xs u → t'.Uses xs' u' → u.id = u'.id →
      u.channel = u'.channel → ∀ r : Pairing, r.envs globals globals → u.store.Alike r u'.store →
      (∀ limits fuel origin module p, compile origin module = .ok p →
        ReportsAlike r (u.run limits fuel p) (u'.run limits fuel p)) ∧
      ∀ limits fuel name args args', ValuesAlike r args args' →
        ReportsAlike r (u.call limits fuel name args) (u'.call limits fuel name args')) := by
  refine ⟨fun limits fuel origin module p x hp hx => ?_, fun limits fuel name callee args x hname hx => ?_,
    fun xs u hu => ?_, fun t' xs u xs' u' ht' hu hu' hid hchannel r hglobals hstore => ?_⟩
  · have hsettled := ht.run hp hx
    exact ⟨hsettled.rest.slot, hsettled.rest.depth, fun hreturned => (hsettled.cleared hreturned).channel⟩
  · have hsettled := ht.call hname hx
    exact ⟨hsettled.rest.slot, hsettled.rest.depth, fun hreturned => (hsettled.cleared hreturned).channel⟩
  · obtain ⟨hall, hrest, hlast⟩ := ht.uses hu
    refine ⟨fun x hx => ⟨(hall x hx).rest, (hall x hx).cleared⟩, hrest, fun x hx hreturned => ?_⟩
    exact hlast x hx ▸ (hall x (List.mem_of_getLast? hx)).cleared hreturned
  · have hrest := (ht.uses hu).2.1
    have hrest' := (ht'.uses hu').2.1
    have halike : u.Alike r u' :=
      ⟨hid, hstore, hglobals, hchannel, ⟨hrest.slot, hrest'.slot⟩, hrest.depth.trans hrest'.depth.symm⟩
    exact ⟨fun limits fuel origin module p hp => halike.run hrest hp fuel,
      fun limits fuel name args args' hargs => halike.call hrest hargs name fuel⟩

/-! ## A marked thread -/

namespace Marked

def roots : Pairing := ⟨fun i j => i = globals ∧ j = globals, fun _ _ => False, False⟩

def thread : Thread := { Thread.new 0 with channel := some ⟨.exit, "OUT", Escape.place, "host"⟩ }

def used : Thread :=
  { thread with store := (thread.store.newArray #[.tailCalled, .array 0]).2, peak := 3 }

theorem alike_used : thread.store.Alike roots used.store := by
  have hbindings : (thread.store.env globals).bindings =
      Builtin.all.map fun b => (b.name, b.toValue) := rfl
  have henv : used.store.env globals = thread.store.env globals := rfl
  constructor
  · rintro i j ⟨rfl, rfl⟩
    decide
  · rintro i j i' j' ⟨rfl, rfl⟩ ⟨rfl, rfl⟩
    rfl
  · rintro i j ⟨rfl, rfl⟩
    rw [henv, hbindings]
    refine List.forall₂_same.mpr fun b hb => ⟨rfl, ?_⟩
    obtain ⟨builtin, -, rfl⟩ := List.mem_map.mp hb
    exact .plain trivial
  · rintro i j ⟨rfl, rfl⟩
    exact .none
  · rintro i j ⟨rfl, rfl⟩
    rfl
  · exact nofun
  · exact nofun
  · exact nofun

end Marked

/-- On a thread with a marker of the host, the verb of the script finds the channel occupied. The run fails and leaves
    a cleared thread all the same, and it says the same on a thread that was used before. -/
theorem marked_thread_is_cleared :
    Marked.thread.AtRest ∧ Marked.thread.channel.isSome ∧
      (∃ x, Marked.thread.run Escape.limits 100 Escape.program = some x ∧ x.thread.channel = none ∧
        x.thread.trampoline = none ∧ x.thread.depth = 0) ∧
      ReportsAlike Marked.roots (Marked.thread.run Escape.limits 100 Escape.program)
        (Marked.used.run Escape.limits 100 Escape.program) := by
  have hrest : Marked.thread.AtRest := ⟨rfl, rfl⟩
  obtain ⟨hrun, -, -, hnext⟩ := no_control_state_leaks hrest
  have hends : (Marked.thread.run Escape.limits 100 Escape.program).map (decide ·.outcome.Returned) = some true := by
    decide +kernel
  obtain ⟨x, hx, hreturned⟩ := Option.map_eq_some_iff.mp hends
  obtain ⟨hslot, hdepth, hchannel⟩ := hrun _ _ _ _ _ _ Escape.compile_script hx
  refine ⟨hrest, rfl, ⟨x, hx, hchannel (of_decide_eq_true hreturned), hslot, hdepth⟩, ?_⟩
  exact (hnext Marked.used [] _ [] _ ⟨rfl, rfl⟩ (.nil _) (.nil _) rfl rfl Marked.roots ⟨rfl, rfl⟩
    Marked.alike_used).1 _ _ _ _ _ Escape.compile_script

end KestrelLang
