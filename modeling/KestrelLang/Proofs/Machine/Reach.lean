import KestrelLang.Proofs.Machine.Soundness

/-! # Runs and the machines they reach

* `Reaches` — steps lead from one machine to another.
* `Reaches.invariant`, `iterate_invariant` — what every step keeps, every run keeps, to its end.
* `Accepted` — a unit belongs to a program that was accepted.
* `Value.Held` — a value that a host can hand to a thread.
* `Thread.Arises` — a thread came about by what hosts do: loading, running, calling, binding.
* `Starts`, `Reachable` — the machines of all runs of accepted programs and of all calls.
* `Reachable.sound` — every reachable machine is sound.
* `Machine.Sound.step_cases` — what a step of a sound machine can be.
* `Next.after` — the machine after some number of steps.
* `Escape.script` — a script in which a verb leaves two calls and three loops. -/

namespace KestrelLang

open KestrelLang.Code

/-! ## Steps -/

inductive Reaches (limits : Limits) : Machine → Machine → Prop
  | refl (m : Machine) : Reaches limits m m
  | step {m m₁ m₂ : Machine} : step limits m = .running m₁ → Reaches limits m₁ m₂ →
      Reaches limits m m₂

namespace Reaches

variable {limits : Limits} {m m₁ : Machine}

theorem invariant {I : Next → Prop} (hstep : ∀ m, I (.running m) → I (KestrelLang.step limits m))
    (h : Reaches limits m m₁) (hm : I (.running m)) : I (.running m₁) := by
  induction h with
  | refl => exact hm
  | step hfirst _ ih => exact ih (hfirst ▸ hstep _ hm)

theorem sound (h : Reaches limits m m₁) (hm : m.Sound) : m₁.Sound :=
  h.invariant (I := Next.Sound) (fun _ => sound_step) hm

end Reaches

theorem iterate_invariant {limits : Limits} {I : Next → Prop} (hstep : ∀ m, I (.running m) → I (step limits m))
    {fuel : Nat} {next : Next} {m : Machine} {outcome : Outcome} (hnext : I next)
    (h : iterate limits fuel next = some (m, outcome)) : I (.done m outcome) := by
  induction fuel generalizing next with
  | zero =>
    cases next with
    | running m' => cases h
    | done m' outcome' =>
      cases h
      exact hnext
  | succ fuel ih =>
    cases next with
    | running m' => exact ih (hstep m' hnext) h
    | done m' outcome' =>
      cases h
      exact hnext

/-! ## Threads -/

def Accepted (u : CodeUnit) : Prop :=
  ∃ origin m p, compile origin m = .ok p ∧ u ∈ p.units

/-- A value that a host can hand to a thread with the store `s`: if it is a sub, then it has an
    environment of the thread and either no code or that of an accepted program. -/
def Value.Held (s : Store) : Value → Prop
  | .sub f => f.closure < s.envs.size ∧ ∀ u, f.code = some u → Accepted u
  | _ => True

theorem Value.Held.sound {s : Store} {v : Value} (h : v.Held s) : v.Sound s := by
  cases v with
  | sub f =>
    refine ⟨h.1, fun u hu => ?_⟩
    obtain ⟨origin, m, p, hp, hmem⟩ := h.2 u hu
    exact lowered_of_compile hp hmem
  | _ => trivial

/-- A thread that came about by what hosts do: they make threads, load and run accepted programs, call
    subs, bind globals, make and change arrays, and fill or empty the signal channel. -/
inductive Thread.Arises : Thread → Prop
  | new (id : Nat) : Arises (.new id)
  | load {t : Thread} {origin : String} {m : Module} {p : Program} :
    Arises t → compile origin m = .ok p → Arises (t.load p)
  | define {t : Thread} {name : String} {v : Value} :
    Arises t → v.Held t.store → Arises { t with store := t.store.define globals name v }
  | newArray {t : Thread} {xs : Array Value} :
    Arises t → (∀ v ∈ xs.toList, v.Held t.store) → Arises { t with store := (t.store.newArray xs).2 }
  | setArray {t : Thread} {ref : Nat} {xs : Array Value} :
    Arises t → (∀ v ∈ xs.toList, v.Held t.store) →
      Arises { t with store := t.store.modifyArray ref fun _ => xs }
  | signal {t : Thread} (channel : Channel) : Arises t → Arises { t with channel := channel }
  | run {t : Thread} {limits : Limits} {fuel : Nat} {origin : String} {m : Module} {p : Program}
      {r : Report} :
    Arises t → compile origin m = .ok p → t.run limits fuel p = some r → Arises r.thread
  | call {t : Thread} {limits : Limits} {fuel : Nat} {name : String} {args : List Value}
      {r : Report} :
    Arises t → (∀ v ∈ args, v.Held t.store) → t.call limits fuel name args = some r → Arises r.thread

/-- The first state of a run on a thread: of the main chunk of an accepted program, or of a call of a
    global sub. -/
inductive Starts (limits : Limits) (t : Thread) : Next → Prop
  | program {origin : String} {m : Module} {p : Program} :
    compile origin m = .ok p → Starts limits t (t.startProgram p)
  | call {name : String} {callee : Value} {args : List Value} :
    t.store.get? name globals = some callee → (∀ v ∈ args, v.Held t.store) →
      Starts limits t (t.startCall limits callee args)

def Reachable (limits : Limits) (t : Thread) (m : Machine) : Prop :=
  ∃ m₀, Starts limits t (.running m₀) ∧ Reaches limits m₀ m

/-- The machine after `n` steps, if the run gets that far. -/
def Next.after (limits : Limits) : (n : Nat) → Next → Option Machine
  | _, .done .. => none
  | 0, .running m => some m
  | n + 1, .running m => (step limits m).after limits n

theorem Next.reaches_after {limits : Limits} {n : Nat} {m₀ m : Machine}
    (h : (Next.running m₀).after limits n = some m) : Reaches limits m₀ m := by
  induction n generalizing m₀ with
  | zero =>
    cases h
    exact .refl m
  | succ n ih =>
    rw [after] at h
    cases hstep : step limits m₀ with
    | done m' outcome =>
      rw [hstep] at h
      cases n <;> cases h
    | running m₁ =>
      rw [hstep] at h
      exact .step hstep (ih h)

theorem Reachable.of_after {limits : Limits} {t : Thread} {next : Next} {n : Nat} {m : Machine}
    (hstart : Starts limits t next) (h : next.after limits n = some m) : Reachable limits t m := by
  cases next with
  | done m' outcome => cases n <;> cases h
  | running m₀ => exact ⟨m₀, hstart, Next.reaches_after h⟩

/-! ## Everything reachable is sound -/

namespace Thread

variable {t : Thread} {limits : Limits}

theorem sound_new (id : Nat) : (Thread.new id).Sound := by
  have hempty : Store.empty.Sound := by
    have henv : ∀ id, Store.empty.env id = ⟨[], none, 0⟩ := by
      intro id
      cases id <;> rfl
    refine ⟨⟨by decide, fun hp => ?_, fun _ => ?_⟩, fun id b hb => ?_, fun ref => ?_⟩
    · simp [Store.parent, henv] at hp
    · simp [Store.depth, henv]
    · simp [henv] at hb
    · simp [Store.elements, Store.empty]
  have hfold : ∀ (bs : List Builtin) (s : Store), s.Sound →
      (bs.foldl (fun s b => s.define globals b.name b.toValue) s).Sound := by
    intro bs
    induction bs with
    | nil => exact fun s hs => hs
    | cons b bs ih =>
      intro s hs
      exact ih _ (Store.onward_define (v := b.toValue) hs trivial _ _).sound
  refine ⟨hfold _ _ hempty, fun call hcall => ?_⟩
  cases hcall

theorem Sound.load (ht : t.Sound) {origin : String} {m : Module} {p : Program}
    (hp : compile origin m = .ok p) : (t.load p).Sound := by
  have hfold : ∀ (us : List CodeUnit) (s : Store), s.Sound → (∀ u ∈ us, Lowered u) →
      s.Onward (us.foldl loadSub s) := by
    intro us
    induction us with
    | nil => exact fun s hs _ => .refl hs
    | cons u us ih =>
      intro s hs hus
      obtain ⟨hu, hus⟩ := List.forall_mem_cons.mp hus
      have hsub : (Value.sub ⟨u.name, u.params, globals, some u, u.span⟩).Sound s :=
        ⟨hs.nested.nonempty, fun v hv => by cases hv; exact hu⟩
      have hdefine := Store.onward_define hs hsub globals u.name
      exact hdefine.trans (ih _ hdefine.sound hus)
  refine ht.withStore (hfold _ _ ht.store fun u hu => lowered_of_compile hp ?_)
  simp [Program.units, hu]

theorem sound_report {m : Machine} (hm : m.thread.Sound) (outcome : Outcome) :
    (report m outcome).thread.Sound := by
  unfold report
  split
  · exact ⟨hm.store, hm.trampoline⟩
  · exact hm
  · exact ⟨hm.store, nofun⟩
  · exact ⟨hm.store, hm.trampoline⟩

end Thread

theorem sound_iterate {limits : Limits} {fuel : Nat} {next : Next} {m : Machine} {outcome : Outcome}
    (hnext : next.Sound) (h : iterate limits fuel next = some (m, outcome)) : m.thread.Sound :=
  iterate_invariant (I := Next.Sound) (fun _ => sound_step) hnext h

theorem Thread.sound_finish {limits : Limits} {fuel : Nat} {next : Next} {r : Report}
    (hnext : next.Sound) (h : finish limits fuel next = some r) : r.thread.Sound := by
  obtain ⟨⟨m, outcome⟩, hm, rfl⟩ := Option.map_eq_some_iff.mp h
  exact sound_report (sound_iterate hnext hm) outcome

theorem Thread.Sound.startProgram {t : Thread} (ht : t.Sound) {origin : String} {m : Module}
    {p : Program} (hp : compile origin m = .ok p) : (t.startProgram p).Sound := by
  have hloaded := ht.load hp
  exact ⟨⟨hloaded, Frame.valid_start (lowered_of_compile hp (by simp [Program.units]))
    hloaded.store.nested.nonempty .nil, by simp [Thread.machine]⟩, Frame.shaped_start⟩

theorem Starts.sound {limits : Limits} {t : Thread} {next : Next} (h : Starts limits t next)
    (ht : t.Sound) : next.Sound := by
  cases h with
  | program hp => exact ht.startProgram hp
  | call hname hargs =>
    exact (Machine.called ..).sound ht (by simp) (ht.store.get? hname) fun v hv => (hargs v hv).sound

theorem Thread.Arises.sound {t : Thread} (h : t.Arises) : t.Sound := by
  induction h with
  | new id => exact sound_new id
  | load _ hp ih => exact ih.load hp
  | define _ hv ih => exact ih.withStore (Store.onward_define ih.store hv.sound _ _)
  | newArray _ hxs ih =>
    exact ih.withStore (Store.onward_newArray ih.store fun v hv => (hxs v hv).sound)
  | setArray _ hxs ih =>
    exact ih.withStore (Store.onward_modifyArray ih.store (fun _ _ v hv => (hxs v hv).sound) _)
  | signal _ _ ih => exact ⟨ih.store, ih.trampoline⟩
  -- A run and a call leave the thread of their last state behind.
  | run _ hp hr ih => exact sound_finish (ih.startProgram hp) hr
  | call _ hargs hr ih =>
    unfold Thread.call at hr
    split at hr
    · cases hr
      exact ih
    · exact sound_finish ((Starts.call ‹_› hargs).sound ih) hr

theorem Reachable.sound {limits : Limits} {t : Thread} {m : Machine} (h : Reachable limits t m)
    (ht : t.Arises) : m.Sound := by
  obtain ⟨m₀, hstart, hreach⟩ := h
  exact hreach.sound (hstart.sound ht.sound)

/-! ## What a step can be -/

/-- The run ended since the host wished to stop. -/
def Next.Canceled : Next → Prop
  | .done _ (.failure f) => f.root = .canceled
  | _ => False

namespace Machine

variable {m : Machine}

theorem canceled_raise (m : Machine) (callers : List Suspended) (activity : String) :
    (m.raise callers (.during activity .canceled)).Canceled := by
  unfold raise
  induction callers with
  | nil => rfl
  | cons x rest ih => exact ih

theorem Sound.instruction (hm : m.Sound) {ip : Nat} (hip : m.frame.ip = some ip) :
    ∃ i, m.frame.instruction? = some i := by
  obtain ⟨body, hbody⟩ := hm.frame.unit
  obtain ⟨i, hi⟩ := hbody.consistent.within (hm.shaped.at_ip hip hbody.consistent)
  exact ⟨i, Frame.instruction?_eq_some.mpr ⟨ip, hip, hi⟩⟩

/-- A machine in front of an instruction runs it, after the counters moved on, unless the host wishes to
    stop. -/
theorem step_of_instruction (limits : Limits) {i : Instruction} (hi : m.frame.instruction? = some i) :
    (step limits m).Canceled ∨
      ∃ steps polls, step limits m = { m with steps := steps, polls := polls }.exec limits i := by
  obtain ⟨ip, hip, hi⟩ := Frame.instruction?_eq_some.mp hi
  simp only [step, hip, hi]
  split
  · split
    · exact .inl (canceled_raise ..)
    · exact .inr ⟨_, _, rfl⟩
  · exact .inr ⟨_, m.polls, rfl⟩

/-- A step of a sound machine ends a frame without an address, runs an instruction, or stops for the
    host. -/
theorem Sound.step_cases (hm : m.Sound) (limits : Limits) :
    (m.frame.ip = none ∧ step limits m = m.leave limits .undefined) ∨
      ∃ i, m.frame.instruction? = some i ∧ ((step limits m).Canceled ∨
        ∃ steps polls, step limits m = { m with steps := steps, polls := polls }.exec limits i) := by
  cases hip : m.frame.ip with
  | none => exact .inl ⟨rfl, by simp only [step, hip]⟩
  | some ip =>
    obtain ⟨i, hi⟩ := hm.instruction hip
    exact .inr ⟨i, hi, step_of_instruction limits hi⟩

end Machine

/-! ## A run to look at -/

namespace Escape

def place : Span := ⟨⟨1, 1⟩, ⟨1, 2⟩⟩

def label (text : String) : Option Name := some ⟨text, place⟩

def callOf (body : List Stmt) : Stmt := .expr (.call (.closure [] (.mk body place) place) [] place)

def forever (label : Option Name) (body : List Stmt) : Stmt :=
  .whileLoop label (.int 1 place) false (.mk body place) place

/-- The body of the outer closure: `IN: foreach x ([7]) { sub { last OUT }() }`. -/
def relay : List Stmt :=
  [.foreachLoop (label "IN") ⟨"x", place⟩ (.array [.int 7 place] place)
    (.mk [callOf [.verb .last (label "OUT") place]] place) place]

/-- A script in which a verb leaves two calls and three loops, and then another one a block:
    `OUT: while (1) { while (1) { sub { … }() } } SKIP: { last SKIP }`. -/
def script : Module :=
  ⟨[forever (label "OUT") [forever none [callOf relay]],
    .bare (label "SKIP") (.mk [.verb .last (label "SKIP") place] place) place], place⟩

def program : Program :=
  match compile "escape" script with
  | .ok p => p
  | .error _ => default

theorem compile_script : compile "escape" script = .ok program := rfl

/-- A look at the host's wish after every fourth instruction, and no wish to stop. -/
def limits : Limits := ⟨none, 4, none, none⟩

def after? (n : Nat) : Option Machine := ((Thread.new 0).startProgram program).after limits n

def after (n : Nat) : Machine := (after? n).getD default

theorem reachable_after {n : Nat} (h : (after? n).isSome) : Reachable limits (.new 0) (after n) := by
  refine .of_after (.program compile_script) (n := n) ?_
  obtain ⟨m, hm⟩ := Option.isSome_iff_exists.mp h
  rw [after, hm]
  exact hm

end Escape

end KestrelLang
