import KestrelLang.Proofs.Meaning.Statements

/-! # Lowering preserves meaning

* `realizes_unit` — the code of a unit does what the text of the unit does.
* `Machine.Begins` — a machine is about to run a unit on its own.
* `Finish`, `Machine.Finishes`, `TextFinishes` — how a run of the code and how an evaluation of the text end, and
  what they leave.
* `lowering_preserves_meaning` — for every unit of an accepted program these are the same. -/

namespace KestrelLang

open KestrelLang.Code KestrelLang.Label

/-! ## Units -/

/-- The code of a unit does what the text of the unit does, and ends the run with its value. -/
theorem Activation.realizes_unit {a : Activation} {body : List Stmt} (hbody : CodeOf body a.unit) {σ : Stage}
    {env : Nat} {next : Next} (hhome : a.Home σ.thread.store env [] 0 0) (hat : a.Stands σ env [] [] 0 next) :
    Realizes a.limits a.fuel (evalUnit a.world env body) σ next fun v τ next' => Ended τ (.value v) next' := by
  obtain ⟨code, b, b', hcode, hunit⟩ := hbody.lowered
  obtain ⟨items, n, hwalk, -⟩ := hbody.walked
  have hlies : LiesAt (a.unit.code[·]?) 0 (code ++ unitEnd a.unit.isSub) := by
    simpa only [hunit, List.getElem?_toArray] using liesAt_self (code ++ unitEnd a.unit.isSub)
  simp only [unitEnd, along_append, along_cons, along_nil, length_lowerStmts _ hcode, Nat.zero_add, and_true] at hlies
  obtain ⟨hstmts, hlast, hret⟩ := hlies
  -- At the start of a unit no scope and no walk is open.
  have haround : a.Around (.ofUnit a.unit.isSub a.unit.origin) [] 0 0 0 :=
    ⟨rfl, rfl, .nil, fun _ hs => absurd hs List.not_mem_nil, fun _ ho => absurd ho List.not_mem_nil⟩
  have hruns := runs_lowerStmts (p := .start) [] body hcode hstmts hwalk haround hhome hat
  refine hruns.bind fun ending τ next₁ _ hends => ?_
  cases ending with
  | normal =>
    rw [Spot.start, Nat.zero_add] at hends
    cases hsub : a.unit.isSub with
    | true =>
      rw [hsub] at hlast
      dsimp only
      rw [if_pos (show a.world.info.inSub = true from hsub)]
      refine (Stands.const hends hlast).silently fun next₂ h₂ => ?_
      exact (h₂.ret hret).silently fun next₃ h₃ => .pure h₃
    | false =>
      rw [hsub] at hlast
      dsimp only
      rw [if_neg (show ¬ a.world.info.inSub = true by rw [show a.world.info.inSub = false from hsub]; decide)]
      refine (Stands.result hends hlast).silently fun next₂ h₂ => ?_
      exact (h₂.ret hret).silently fun next₃ h₃ => ⟨next₃, .refl next₃, h₃⟩
  -- There is no scope to leave.
  | leaves scope kind =>
    obtain ⟨x, hx, -⟩ := hends
    cases hx
  | returns v => exact .pure hends

/-! ## Runs of a unit -/

/-- The machine is about to run the unit on its own, in an environment of its store. The channel is empty, and
    no call of the unit will come back with a marker pending. -/
structure Machine.Begins (limits : Limits) (u : CodeUnit) (env : Nat) (args : List Value) (m : Machine) : Prop where
  frame : m.frame = Frame.start u env (m.thread.store.depth env) args
  callers : m.callers = []
  base : m.base = .program
  known : env < m.thread.store.envs.size
  empty : m.thread.channel = none
  quiet : ∀ {m'}, Reaches limits m m' → m'.callers = [] → m'.thread.channel = none

/-- The run ends within some steps, and whenever the unit goes on the channel is empty. -/
def Next.staysQuiet (limits : Limits) : (fuel : Nat) → Next → Bool
  | _, .done .. => true
  | 0, .running _ => false
  | fuel + 1, .running m =>
    (!m.callers.isEmpty || m.thread.channel.isNone) && (step limits m).staysQuiet limits fuel

theorem Reaches.quiet {limits : Limits} {fuel : Nat} {m m' : Machine} (h : Reaches limits m m')
    (hquiet : (Next.running m).staysQuiet limits fuel) (hcallers : m'.callers = []) : m'.thread.channel = none := by
  induction h generalizing fuel with
  | refl m =>
    cases fuel with
    | zero => cases hquiet
    | succ fuel =>
      simp only [Next.staysQuiet, hcallers, List.isEmpty_nil, Bool.not_true, Bool.false_or, Bool.and_eq_true] at hquiet
      exact Option.isNone_iff_eq_none.mp hquiet.1
  | step hstep _ ih =>
    cases fuel with
    | zero => cases hquiet
    | succ fuel =>
      rw [Next.staysQuiet, hstep, Bool.and_eq_true] at hquiet
      exact ih hquiet.2 hcallers

structure Finish where
  outcome : Outcome
  thread : Thread
  out : String
  events : List Event

def Machine.Finishes (limits : Limits) (m : Machine) (f : Finish) : Prop :=
  ∃ fuel m', iterate limits fuel (.running m) = some (m', f.outcome) ∧ m'.thread = f.thread ∧ m'.out = f.out ∧
    m'.events = f.events

/-- How evaluation ended, as the outcome of a run; an interrupted one has none. -/
def outcome? : Except Stop Value → Option Outcome
  | .ok v => some (.value v)
  | .error (.failed f) => some (.failure f)
  | .error .aborted => some .aborted
  | .error .interrupted => none

/-- The evaluation of the text of a unit, from where the machine stands, comes to its end. -/
def TextFinishes (limits : Limits) (u : CodeUnit) (body : List Stmt) (env : Nat) (args : List Value) (m : Machine)
    (f : Finish) : Prop :=
  ∃ fuel result σ, evalUnit ⟨limits, fuel, u.name, ⟨u.isSub, u.origin⟩, args⟩ env body
      ⟨m.thread, m.out, m.events, .undefined⟩ = some (result, σ) ∧
    outcome? result = some f.outcome ∧ σ.thread = f.thread ∧ σ.out = f.out ∧ σ.events = f.events

section Finishes

variable {limits : Limits} {m : Machine} {σ : Stage}

theorem Ended.finishes {outcome : Outcome} {next : Next} (h : Ended σ outcome next)
    (hleads : Leads limits (.running m) next) : m.Finishes limits ⟨outcome, σ.thread, σ.out, σ.events⟩ := by
  obtain ⟨m', rfl, hthread, hout, hevents⟩ := h
  obtain ⟨fuel, hrun⟩ := hleads.iterate (iterate_done limits 0 m' outcome)
  exact ⟨fuel, m', hrun, hthread, hout, hevents⟩

theorem Machine.Finishes.unique {f g : Finish} (hf : m.Finishes limits f) (hg : m.Finishes limits g) : f = g := by
  obtain ⟨fuel, m₁, hrun, hthread, hout, hevents⟩ := hf
  obtain ⟨fuel', m₂, hrun', hthread', hout', hevents'⟩ := hg
  obtain ⟨rfl, houtcome⟩ := Prod.mk.inj (iterate_unique hrun hrun')
  calc f = ⟨f.outcome, f.thread, f.out, f.events⟩ := rfl
    _ = ⟨g.outcome, g.thread, g.out, g.events⟩ := by
      rw [houtcome, ← hthread, ← hout, ← hevents, hthread', hout', hevents']

variable {u : CodeUnit} {env : Nat} {args : List Value} {body : List Stmt}

theorem Machine.Begins.finishes (hm : m.Begins limits u env args) (hcancel : limits.cancelAfter = none)
    (hbody : CodeOf body u) (fuel : Nat) :
    match evalUnit ⟨limits, fuel, u.name, ⟨u.isSub, u.origin⟩, args⟩ env body
      ⟨m.thread, m.out, m.events, .undefined⟩ with
    | none => iterate limits fuel (.running m) = none
    | some (result, σ) =>
      ∃ outcome, outcome? result = some outcome ∧ m.Finishes limits ⟨outcome, σ.thread, σ.out, σ.events⟩ := by
  let a : Activation := ⟨limits, hcancel, fuel, u, m.thread.store.depth env, args⟩
  let σ₀ : Stage := ⟨m.thread, m.out, m.events, .undefined⟩
  have hstart : m = a.machine σ₀ env [] [] 0 m.steps m.polls :=
    calc m = ⟨m.thread, m.frame, m.callers, m.base, m.steps, m.polls, m.out, m.events⟩ := rfl
      _ = a.machine σ₀ env [] [] 0 m.steps m.polls := by
        rw [hm.frame, hm.callers, hm.base]
        rfl
  have hat : a.Stands σ₀ env [] [] 0 (.running m) := ⟨hm.empty, m.steps, m.polls, congrArg Next.running hstart⟩
  have hhome : a.Home σ₀.thread.store env [] 0 0 := ⟨hm.known, rfl, rfl⟩
  have hrealizes := Activation.realizes_unit hbody hhome hat
  unfold Realizes at hrealizes
  rw [show a.world = ⟨limits, fuel, u.name, ⟨u.isSub, u.origin⟩, args⟩ from rfl] at hrealizes
  split at hrealizes <;> rename_i heval <;> rw [heval] <;> dsimp only
  · exact hrealizes
  · obtain ⟨next', hleads, hended⟩ := hrealizes
    exact ⟨_, rfl, Ended.finishes hended hleads⟩
  · obtain ⟨next', hleads, hshown⟩ := hrealizes
    rename_i stop _
    cases stop with
    | failed f => exact ⟨_, rfl, Ended.finishes hshown hleads⟩
    | aborted => exact ⟨_, rfl, Ended.finishes hshown hleads⟩
    | interrupted =>
      -- The unit would go on with a marker pending, but no call comes back with one.
      obtain ⟨m', rfl, hcallers, hpending⟩ := hshown
      rw [hm.quiet hleads.reaches hcallers] at hpending
      cases hpending

end Finishes

/-! ## Preservation -/

/-- Lowering preserves meaning. Every unit of an accepted program is what becomes of one of the bodies in the
    module, the main chunk of the module's own text. Take any body that the unit is the code of. Whatever the limits
    of a run that the host does not wish to stop, the machine and its thread, the environment and the arguments: if
    the channel is empty at the start, and no call of the unit comes back with a marker pending, then the run of the
    unit's code ends if and only if the evaluation of its text does, with the same value or failure, and leaves the
    same thread, output and events. -/
theorem lowering_preserves_meaning {origin : String} {module : Module} {p : Program}
    (hp : compile origin module = .ok p) {u : CodeUnit} (hu : u ∈ p.units) :
    (∃ body ∈ module.bodies, CodeOf body u) ∧ (u = p.main → CodeOf module.body u) ∧
      ∀ body, CodeOf body u → ∀ (limits : Limits) (m : Machine) (env : Nat) (args : List Value),
        limits.cancelAfter = none → m.Begins limits u env args →
        ∀ f : Finish, TextFinishes limits u body env args m f ↔ m.Finishes limits f := by
  refine ⟨codeOf_of_compile hp hu, fun hmain => hmain ▸ (codeOf_main hp).1,
    fun body hbody limits m env args hcancel hm f => ⟨?_, ?_⟩⟩
  · rintro ⟨fuel, result, σ, heval, houtcome, hthread, hout, hevents⟩
    have hfinishes := hm.finishes hcancel hbody fuel
    rw [heval] at hfinishes
    obtain ⟨outcome, houtcome', hfinishes⟩ := hfinishes
    obtain rfl := Option.some.inj (houtcome.symm.trans houtcome')
    rw [hthread, hout, hevents] at hfinishes
    exact hfinishes
  · intro hrun
    obtain ⟨fuel, m', hends, -⟩ := id hrun
    have hfinishes := hm.finishes hcancel hbody fuel
    split at hfinishes
    · -- The evaluation has as much fuel as the run has steps.
      rw [hfinishes] at hends
      cases hends
    · rename_i result σ heval
      obtain ⟨outcome, houtcome, hfinishes⟩ := hfinishes
      obtain rfl := hfinishes.unique hrun
      exact ⟨fuel, result, σ, heval, houtcome, rfl, rfl, rfl⟩

/-! ## A loop that counts -/

namespace Counting

open Escape (place limits)

def number : Expr := .ident "n" place

/-- `my n = 0; while (1) { n += 1; if (n == 2) { last } } n`. -/
def script : Module :=
  ⟨[.expr (.assign .declare number (.int 0 place) place),
    Escape.forever none
      [.expr (.assign .add number (.int 1 place) place),
        .ifChain (.binary .eq number (.int 2 place) place) false (.mk [.verb .last none place] place) [] .missing
          place],
    .expr number], place⟩

def program : Program :=
  match compile "counting" script with
  | .ok p => p
  | .error _ => default

theorem compile_script : compile "counting" script = .ok program := rfl

def start : Machine := ((Thread.new 0).startProgram program).machine

theorem begins_start : start.Begins limits program.main globals [] where
  frame := rfl
  callers := rfl
  base := rfl
  known := by decide +kernel
  empty := rfl
  quiet hreach hcallers := hreach.quiet (show (Next.running start).staysQuiet limits 37 by decide +kernel) hcallers

end Counting

/-- The loop counts to two, in the code and so in the text. -/
theorem counting_means_two :
    ∃ f : Finish, f.outcome = .value (.int 2) ∧
      TextFinishes Escape.limits Counting.program.main Counting.script.body globals [] Counting.start f := by
  obtain ⟨m', hends⟩ : ∃ m', iterate Escape.limits 37 (.running Counting.start) = some (m', .value (.int 2)) :=
    ends_with_int (by decide +kernel)
  obtain ⟨-, hcode, hmeans⟩ := lowering_preserves_meaning Counting.compile_script (u := Counting.program.main)
    List.mem_cons_self
  refine ⟨⟨.value (.int 2), m'.thread, m'.out, m'.events⟩, rfl, ?_⟩
  refine (hmeans _ (hcode rfl) _ _ _ _ rfl Counting.begins_start _).mpr ?_
  exact ⟨37, m', hends, rfl, rfl, rfl⟩

end KestrelLang
