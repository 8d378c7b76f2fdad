import KestrelLang.Proofs.Machine.CallSites
import KestrelLang.Proofs.Machine.Discipline

/-! # Frames from one step to the next

* `Moves` — where an instruction leaves the address and the walks of its frame.
* `Frame.StepsTo` — an instruction of a frame makes it another one.
* `Resumption`, `Turn` — which frame runs after a step, and what became of it.
* `turns_step` — every step of a sound machine is such a turn.
* `Machine.frames` — all frames, the outermost first.
* `Machine.Passes`, `passes_step` — what a frame with walks under way was before the step. -/

namespace KestrelLang

open KestrelLang.Code

/-! ## Moves -/

namespace Operation

/-- The operation may go on to the next address, and then it leaves the walks alone. -/
def GoesOn : Operation CodeUnit → Prop
  | .branch _ | .iterInit | .iterNext _ | .iterPop | .ret | .jump _ | .signal _ | .tailCall .. => False
  | _ => True

/-- The addresses to which the operation may branch. -/
def branches : Operation CodeUnit → List Nat
  | .branch target | .branchIfFalse target | .branchIfTrue target => [target]
  | _ => []

end Operation

/-- An instruction at `ip` leaves a frame with the given walks under way at an address with such walks. -/
inductive Moves (ip : Nat) (iters : List Iter) : Operation CodeUnit → Nat → List Iter → Prop
  | on {op : Operation CodeUnit} : op.GoesOn → Moves ip iters op (ip + 1) iters
  | branches {op : Operation CodeUnit} {target : Nat} : target ∈ op.branches → Moves ip iters op target iters
  | begins (it : Iter) : Moves ip iters .iterInit (ip + 1) (it :: iters)
  | takes {stop : Nat} {it : Iter} {outer : List Iter} {v : Value} : iters = it :: outer →
      it.elements[it.next]? = some v →
      Moves ip iters (.iterNext stop) (ip + 1) ({ it with next := it.next + 1, current := v } :: outer)
  | ends {stop : Nat} {it : Iter} {outer : List Iter} : iters = it :: outer → it.elements[it.next]? = none →
      Moves ip iters (.iterNext stop) stop iters
  | drops {it : Iter} {outer : List Iter} : iters = it :: outer → Moves ip iters .iterPop (ip + 1) outer
  | jumps {op : Operation CodeUnit} {target scopes n : Nat} : .to target scopes n ∈ op.targets →
      Moves ip iters op target (cutIters n iters)

/-- An instruction that fits leaves the frame with as many walks as the shape of the new address says. -/
theorem Moves.fits {ip ip' : Nat} {iters iters' : List Iter} {op : Operation CodeUnit} (h : Moves ip iters op ip' iters')
    {shapes : Nat → Option Shape} {s : Shape} (hs : s.iters = iters.length) (hfits : OperationFits shapes ip s op) :
    ∃ s', shapes ip' = some s' ∧ s'.iters = iters'.length := by
  cases h with
  | on hon =>
    cases op <;> simp only [OperationFits, Operation.GoesOn] at hfits hon
    all_goals first
      | exact ⟨_, hfits, hs⟩
      | exact ⟨_, hfits.1, hs⟩
      | exact ⟨_, hfits.2, hs⟩
      | exact ⟨_, hfits.2.1, hs⟩
  | branches htarget =>
    cases op <;> simp only [Operation.branches, List.mem_singleton, List.not_mem_nil] at htarget
    all_goals subst htarget
    · exact ⟨_, hfits, hs⟩
    · exact ⟨_, hfits.2.2, hs⟩
    · exact ⟨_, hfits.2.2, hs⟩
  | begins it => exact ⟨_, hfits.2, by simp [hs]⟩
  | takes hiters => exact ⟨_, hfits.2.1, by simp [hs, hiters]⟩
  | ends => exact ⟨_, hfits.2.2, hs⟩
  | drops hiters => exact ⟨_, hfits.2, by simp [hs, hiters]⟩
  | jumps htarget =>
    obtain ⟨-, hle, hshape⟩ := hfits.target_fits htarget
    exact ⟨_, hshape, (Frame.length_cutIters (hs ▸ hle)).symm⟩

structure Frame.StepsTo (f f' : Frame) : Prop where
  unit : f'.unit = f.unit
  moves : ∃ ip i ip', f.ip = some ip ∧ f.unit.code[ip]? = some i ∧ f'.ip = some ip' ∧
    Moves ip f.iters i.op ip' f'.iters

/-! ## Turns -/

/-- The machine runs a frame that starts with no walk, or the innermost of `callers` after its call. -/
inductive Resumption (callers : List Suspended) (m : Machine) : Prop
  | afresh : m.callers <:+ callers → m.frame.iters = [] → Resumption callers m
  | after {x : Suspended} : callers = x :: m.callers → x.AtCall → x.frame.StepsTo m.frame → Resumption callers m

/-- What a step of the frame `f`, on behalf of `callers`, comes to: the frame goes on, another one takes its place, or
    it makes a call. -/
inductive Turn (f : Frame) (callers : List Suspended) (m : Machine) : Prop
  | goesOn : m.callers = callers → f.StepsTo m.frame → Turn f callers m
  | makesWay : Resumption callers m → Turn f callers m
  | calls {x : Suspended} {stack : List Value} : x.AtCall → x.frame = { f with stack := stack } →
      Resumption (x :: callers) m → Turn f callers m

/-- If the run goes on, then the machine is as `P` says. -/
def Next.Goes (P : Machine → Prop) : Next → Prop
  | .running m => P m
  | .done .. => True

namespace Machine

variable {m : Machine} {limits : Limits} {callers : List Suspended} {next : Next} {P : Machine → Prop}

theorem goes_raiseTrouble (t : Trouble) : (m.raiseTrouble callers t).Goes P := by
  cases t <;> trivial

theorem goes_raiseHere (span : Span) (t : Trouble) : (m.raiseHere span t).Goes P := by
  cases t <;> trivial

theorem resumes_deliver (h : ∀ x ∈ callers, x.AtCall) (v : Value) : (m.deliver callers v).Goes (Resumption callers) := by
  cases callers with
  | nil => trivial
  | cons x rest =>
    obtain ⟨name, count, hi⟩ := h x List.mem_cons_self
    obtain ⟨ip, hip, hcode⟩ := Frame.instruction?_eq_some.mp hi
    simp only [deliver]
    split
    -- A landing outside of the frame leaves it without an address and without walks.
    · cases hlanding : x.landing with
      | exit => exact .afresh (List.suffix_cons x rest) rfl
      | «to» target scopes n =>
        have hmem : JumpTarget.to target scopes n ∈ (.call name count x.landing : Operation CodeUnit).targets := by
          simp [Operation.targets, hlanding]
        exact .after rfl ⟨name, count, hi⟩ ⟨rfl, ip, _, target, hip, hcode, rfl, .jumps hmem⟩
    · refine .after rfl ⟨name, count, hi⟩ ⟨rfl, ip, _, ip + 1, hip, hcode, ?_, .on trivial⟩
      simp [hip]

theorem Entered.resumes {callee : Value} {args : List Value} (h : m.Entered limits callers args callee next)
    (hcallers : ∀ x ∈ callers, x.AtCall) : next.Goes (Resumption callers) := by
  cases h with
  | starts => exact .afresh (List.suffix_refl _) rfl
  | noCode | arity | notCallable | fails => exact goes_raiseTrouble _
  | hollow => trivial
  | delivers => exact resumes_deliver hcallers _

theorem Called.resumes {callee : Value} {args : List Value} (h : m.Called limits callers callee args next)
    (hcallers : ∀ x ∈ callers, x.AtCall) : next.Goes (Resumption callers) := by
  cases h with
  | refused => exact goes_raiseTrouble _
  | admitted _ hentered => exact hentered.resumes hcallers

theorem Left.resumes {v : Value} (h : m.Left limits v next) (hcallers : ∀ x ∈ m.callers, x.AtCall) :
    next.Goes (Resumption m.callers) := by
  cases h with
  | ended | astray => trivial
  | replaced _ _ _ hentered => exact hentered.resumes hcallers
  | delivers => exact resumes_deliver hcallers v

theorem resumes_tailCall (h : ∀ x ∈ m.callers, x.AtCall) (callee : Value) (args : List Value) :
    (m.tailCall limits callee args).Goes (Resumption m.callers) := by
  unfold tailCall
  split
  · trivial
  · exact (left ..).resumes h

theorem resumes_signal (h : ∀ x ∈ m.callers, x.AtCall) (marker : Marker) :
    (m.signal limits marker).Goes (Resumption m.callers) := by
  unfold signal
  split
  · trivial
  · exact (left ..).resumes h

end Machine

theorem Next.Goes.mono {P Q : Machine → Prop} {next : Next} (h : next.Goes P) (hpq : ∀ m, P m → Q m) : next.Goes Q := by
  cases next with
  | running m => exact hpq m h
  | done => trivial

namespace Machine

variable {m : Machine} {limits : Limits}

theorem turns_jump {i : Instruction} (hi : m.frame.instruction? = some i) {target : JumpTarget}
    (htarget : target ∈ i.op.targets) {m' : Machine} (hcallers : m'.callers = m.callers) {s : Store}
    (hframe : m'.frame = m.frame.jump s target) : Turn m.frame m.callers m' := by
  obtain ⟨ip, hip, hcode⟩ := Frame.instruction?_eq_some.mp hi
  cases target with
  | exit => exact .makesWay (.afresh (hcallers ▸ List.suffix_refl _) (hframe ▸ rfl))
  | «to» target scopes n =>
    refine .goesOn hcallers ?_
    rw [hframe]
    exact ⟨rfl, ip, i, target, hip, hcode, rfl, .jumps htarget⟩

theorem turns_dispatch {i : Instruction} {table : DispatchTable} (hi : m.frame.instruction? = some i)
    (hop : i.op = .dispatch table) : (m.dispatch table).Goes (Turn m.frame m.callers) := by
  obtain ⟨ip, hip, hcode⟩ := Frame.instruction?_eq_some.mp hi
  unfold dispatch
  split
  · refine .goesOn rfl ⟨rfl, ip, i, ip + 1, hip, hcode, ?_, .on (hop ▸ trivial)⟩
    simp [hip]
  · split
    · trivial
    · split
      · trivial
      · rename_i target htarget
        have hmem : target ∈ i.op.targets := hop ▸ DispatchTable.mem_targets htarget
        dsimp only
        split <;> exact turns_jump hi hmem rfl rfl

theorem turns_exec (hwait : ∀ x ∈ m.callers, x.AtCall) {i : Instruction} (hi : m.frame.instruction? = some i) :
    (m.exec limits i).Goes (Turn m.frame m.callers) := by
  obtain ⟨ip, hip, hcode⟩ := Frame.instruction?_eq_some.mp hi
  have hmoves : ∀ {m' : Machine} {ip'}, m'.callers = m.callers → m'.frame.unit = m.frame.unit → m'.frame.ip = some ip' →
      Moves ip m.frame.iters i.op ip' m'.frame.iters → Turn m.frame m.callers m' :=
    fun hcallers hunit hip' h => .goesOn hcallers ⟨hunit, ip, i, _, hip, hcode, hip', h⟩
  have hnext : m.frame.ip.map (· + 1) = some (ip + 1) := by simp [hip]
  cases hop : i.op <;> simp only [exec, hop]
  case call name count landing =>
    split
    · rename_i args callee rest _
      have hat : Suspended.AtCall ⟨{ m.frame with stack := rest }, landing, i.span⟩ := ⟨name, count, by
        rw [← hop]
        exact hi⟩
      exact ((called ..).resumes (List.forall_mem_cons.mpr ⟨hat, hwait⟩)).mono fun m' h => .calls hat rfl h
    · trivial
  case ret =>
    split
    · exact ((left ..).resumes hwait).mono fun _ => .makesWay
    · trivial
  case signal marker => exact (resumes_signal hwait marker).mono fun _ => .makesWay
  case tailCall count reuse =>
    split <;> split
    · exact (resumes_tailCall hwait _ _).mono fun _ => .makesWay
    · trivial
    · exact (resumes_tailCall hwait _ _).mono fun _ => .makesWay
    · trivial
  case jump target => exact turns_jump hi (by simp [hop, Operation.targets]) rfl rfl
  case dispatch table => exact turns_dispatch hi hop
  case branch target => exact hmoves rfl rfl rfl (hop ▸ .branches (by simp [Operation.branches]))
  case branchIfFalse target | branchIfTrue target =>
    have hon : Moves ip m.frame.iters i.op (ip + 1) m.frame.iters := .on (hop ▸ trivial)
    have haway : Moves ip m.frame.iters i.op target m.frame.iters := .branches (by simp [hop, Operation.branches])
    split
    · split
      all_goals first | exact hmoves rfl rfl hnext hon | exact hmoves rfl rfl rfl haway
    · trivial
  case iterInit =>
    split
    · exact hmoves rfl rfl hnext (hop ▸ .begins _)
    · trivial
  case iterNext target =>
    split
    · rename_i it outer hiters
      split
      · rename_i v hv
        exact hmoves rfl rfl hnext (hop ▸ .takes hiters hv)
      · rename_i hv
        exact hmoves rfl rfl rfl (hop ▸ .ends hiters hv)
    · trivial
  case iterPop =>
    split
    · rename_i it outer hiters
      exact hmoves rfl rfl hnext (hop ▸ .drops hiters)
    · trivial
  -- What is left goes on to the next address with the walks as they were, or ends the run.
  all_goals have hon : Moves ip m.frame.iters i.op (ip + 1) m.frame.iters := .on (hop ▸ trivial)
  all_goals repeat' split
  all_goals first | exact hmoves rfl rfl hnext hon | exact goes_raiseHere .. | trivial

theorem Sound.atCall (hm : m.Sound) : ∀ x ∈ m.callers, x.AtCall := by
  intro x hx
  obtain ⟨ip, ⟨op, site⟩, name, count, hip, hi, hop, hsite, -⟩ := (hm.callers x hx).call
  cases hop
  cases hsite
  exact ⟨name, count, Frame.instruction?_eq_some.mpr ⟨ip, hip, hi⟩⟩

end Machine

theorem turns_step {limits : Limits} {m m' : Machine} (hm : m.Sound) (h : step limits m = .running m') :
    Turn m.frame m.callers m' := by
  have hgoes : (step limits m).Goes (Turn m.frame m.callers) := by
    obtain ⟨-, hstep⟩ | ⟨i, hi, hcanceled | ⟨steps, polls, hstep⟩⟩ := hm.step_cases limits
    · rw [hstep]
      exact ((Machine.left ..).resumes hm.atCall).mono fun _ => .makesWay
    · rw [h] at hcanceled
      exact hcanceled.elim
    · rw [hstep]
      exact Machine.turns_exec (m := { m with steps := steps, polls := polls }) hm.atCall hi
  rw [h] at hgoes
  exact hgoes

/-! ## Frames by their levels -/

def waitingFrames (callers : List Suspended) : List Frame := (callers.map (·.frame)).reverse

def Machine.frames (m : Machine) : List Frame := waitingFrames m.callers ++ [m.frame]

section Levels

variable {callers callers' : List Suspended} {n : Nat} {f f' : Frame} {m m' : Machine}

theorem waitingFrames_cons (x : Suspended) (callers : List Suspended) :
    waitingFrames (x :: callers) = waitingFrames callers ++ [x.frame] := by
  simp [waitingFrames]

@[simp] theorem length_waitingFrames : (waitingFrames callers).length = callers.length := by simp [waitingFrames]

theorem waitingFrames_lt (h : (waitingFrames callers)[n]? = some f) : n < callers.length := by
  obtain ⟨hn, -⟩ := List.getElem?_eq_some_iff.mp h
  rwa [length_waitingFrames] at hn

theorem waitingFrames_of_suffix (hsuffix : callers' <:+ callers) (h : (waitingFrames callers')[n]? = some f) :
    (waitingFrames callers)[n]? = some f := by
  have hn := waitingFrames_lt h
  obtain ⟨above, rfl⟩ := hsuffix
  rw [waitingFrames, List.map_append, List.reverse_append, List.getElem?_append_left (by simpa using hn)]
  exact h

theorem getElem?_append_frame {last : Frame} (h : (waitingFrames callers ++ [last])[n]? = some f) :
    (waitingFrames callers)[n]? = some f ∨ n = callers.length ∧ f = last := by
  obtain hn | hn := Nat.lt_or_ge n (waitingFrames callers).length
  · exact .inl (by rwa [List.getElem?_append_left hn] at h)
  · rw [List.getElem?_append_right hn, List.getElem?_singleton] at h
    rw [length_waitingFrames] at h hn
    split at h
    · cases h
      exact .inr ⟨by omega, rfl⟩
    · cases h

theorem getElem?_frames_of_waiting (h : (waitingFrames m.callers)[n]? = some f) : m.frames[n]? = some f := by
  obtain ⟨hn, -⟩ := List.getElem?_eq_some_iff.mp h
  rwa [Machine.frames, List.getElem?_append_left hn]

@[simp] theorem getElem?_frames_current (m : Machine) : m.frames[m.callers.length]? = some m.frame := by
  rw [← length_waitingFrames]
  exact List.getElem?_concat_length

structure Frame.Rests (f f' : Frame) : Prop where
  unit : f'.unit = f.unit
  ip : f'.ip = f.ip
  iters : f'.iters = f.iters

theorem Frame.Rests.refl (f : Frame) : f.Rests f := ⟨rfl, rfl, rfl⟩

/-- A frame with walks under way was among those that could be resumed, and its call is over if it is not there any more. -/
theorem Resumption.before (h : Resumption callers m) (hf : m.frames[n]? = some f') (hwalks : f'.iters ≠ []) :
    ∃ f, (waitingFrames callers)[n]? = some f ∧ (f.Rests f' ∨ f.AtCall ∧ f.StepsTo f') := by
  obtain hwaiting | ⟨rfl, rfl⟩ := getElem?_append_frame hf
  · refine ⟨f', waitingFrames_of_suffix ?_ hwaiting, .inl (.refl f')⟩
    cases h with
    | afresh hsuffix => exact hsuffix
    | after hcallers => exact hcallers ▸ List.suffix_cons ..
  · cases h with
    | afresh _ hnone => exact absurd hnone hwalks
    | @after x hcallers hat hsteps =>
      obtain ⟨name, count, hi⟩ := hat
      refine ⟨x.frame, ?_, .inr ⟨⟨name, count, _, _, hi⟩, hsteps⟩⟩
      rw [hcallers, waitingFrames_cons, ← length_waitingFrames]
      exact List.getElem?_concat_length

/-- How the frame `f` at level `n` becomes the frame `f'` in a step from `m` to `m'`: it runs its instruction itself, or
    others run while it waits at a call, which may be over then. -/
inductive Machine.Passes (m m' : Machine) (n : Nat) (f f' : Frame) : Prop
  | own : n = m.callers.length → f = m.frame → m'.callers = m.callers → f' = m'.frame → f.StepsTo f' → Passes m m' n f f'
  | others : (n = m.callers.length → m.frame.AtCall) → f.Rests f' ∨ f.AtCall ∧ f.StepsTo f' → Passes m m' n f f'

theorem passes_step {limits : Limits} (hm : m.Sound) (hstep : step limits m = .running m') (hf : m'.frames[n]? = some f')
    (hwalks : f'.iters ≠ []) : ∃ f, m.frames[n]? = some f ∧ m.Passes m' n f f' := by
  -- Whoever is resumed below the running frame is not at its level.
  have hbelow : ∀ {f : Frame}, (waitingFrames m.callers)[n]? = some f → n ≠ m.callers.length :=
    fun h => Nat.ne_of_lt (waitingFrames_lt h)
  cases turns_step hm hstep with
  | goesOn hcallers hsteps =>
    rw [Machine.frames, hcallers] at hf
    obtain hwaiting | ⟨rfl, rfl⟩ := getElem?_append_frame hf
    · exact ⟨f', getElem?_frames_of_waiting hwaiting, .others (fun h => absurd h (hbelow hwaiting)) (.inl (.refl f'))⟩
    · exact ⟨m.frame, getElem?_frames_current m, .own rfl rfl hcallers rfl hsteps⟩
  | makesWay h =>
    obtain ⟨f, hwaiting, hpasses⟩ := h.before hf hwalks
    exact ⟨f, getElem?_frames_of_waiting hwaiting, .others (fun h => absurd h (hbelow hwaiting)) hpasses⟩
  | @calls x stack hat hframe h =>
    obtain ⟨f, hwaiting, hpasses⟩ := h.before hf hwalks
    obtain ⟨name, count, hi⟩ := hat
    rw [hframe] at hi
    rw [waitingFrames_cons, hframe] at hwaiting
    have hcall : m.frame.AtCall := ⟨name, count, _, _, hi⟩
    obtain hwaiting | ⟨rfl, rfl⟩ := getElem?_append_frame hwaiting
    · exact ⟨f, getElem?_frames_of_waiting hwaiting, .others (fun _ => hcall) hpasses⟩
    -- The frame that made the call waited without its operands, which the call has taken.
    · refine ⟨m.frame, getElem?_frames_current m, .others (fun _ => hcall) ?_⟩
      obtain hrests | ⟨-, hsteps⟩ := hpasses
      · exact .inl ⟨hrests.unit, hrests.ip, hrests.iters⟩
      · exact .inr ⟨hcall, hsteps.unit, hsteps.moves⟩

end Levels

/-- Every frame of a sound machine has the shape of its address, but for its operands. -/
theorem Machine.Sound.shape_at {m : Machine} (hm : m.Sound) {n : Nat} {f : Frame} (hf : m.frames[n]? = some f) {ip : Nat}
    (hip : f.ip = some ip) {shapes : Nat → Option Shape} (hshapes : Consistent f.unit.code shapes) :
    ∃ s, shapes ip = some s ∧ s.iters = f.iters.length := by
  obtain hwaiting | ⟨-, rfl⟩ := getElem?_append_frame hf
  · obtain ⟨x, hx, rfl⟩ := List.mem_map.mp (List.mem_reverse.mp (List.mem_of_getElem? hwaiting))
    obtain ⟨_, _, _, count, -, -, -, -, hshaped⟩ := (hm.callers x hx).call
    exact ⟨_, hshaped.at_ip hip hshapes, rfl⟩
  · exact ⟨_, hm.shaped.at_ip hip hshapes, rfl⟩

end KestrelLang
