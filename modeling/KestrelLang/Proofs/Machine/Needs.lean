import KestrelLang.Proofs.Machine.Reach

/-! # What operations need

* `Operation.arity`, `Operation.walks` — how much an operation needs on the stacks of its frame.
* `OperationFits.arity_le`, `OperationFits.walks_le` — an operation that fits finds as much.
* `Frame.Demands` — the demands that no machine can meet.
* `Machine.Sound.demands` — a sound machine aborts only for such a demand. -/

namespace KestrelLang

open KestrelLang.Code

/-! ## Operands and iterators -/

namespace Operation

/-- How many values of the stack an operation takes or looks at. -/
def arity : Operation CodeUnit → Nat
  | .declare _ | .store _ | .dup | .pop | .popResult | .unary _ | .branchIfFalse _ | .branchIfTrue _
  | .iterInit | .ret => 1
  | .dup2 | .binary _ | .indexGet => 2
  | .indexSet => 3
  | .makeArray count => count
  | .call _ count _ => count + 1
  | .tailCall count reuse => if reuse then 1 else count + 1
  | .const _ | .load _ | .result | .makeSub _ | .branch _ | .enterScope | .exitScope | .iterNext _
  | .iterBind _ | .iterPop | .jump _ | .signal _ | .dispatch _ => 0

def walks : Operation CodeUnit → Nat
  | .iterNext _ | .iterBind _ | .iterPop => 1
  | _ => 0

end Operation

namespace Code

variable {shapes : Nat → Option Shape} {ip : Nat} {s : Shape} {op : Operation CodeUnit}

theorem OperationFits.arity_le (h : OperationFits shapes ip s op) : op.arity ≤ s.height := by
  cases op with
  | tailCall count reuse =>
    have hheight : 1 + (if reuse then 0 else count) ≤ s.height := h
    cases reuse with
    | true => exact hheight
    | false => exact Nat.le_trans (Nat.le_of_eq (Nat.add_comm count 1)) hheight
  | ret => exact h
  | declare | store | dup | pop | popResult | unary | branchIfFalse | branchIfTrue | iterInit | dup2
  | binary | indexGet | indexSet | makeArray | call => exact h.1
  | _ => exact Nat.zero_le _

theorem OperationFits.walks_le (h : OperationFits shapes ip s op) : op.walks ≤ s.iters := by
  cases op with
  | iterNext | iterBind | iterPop => exact h.1
  | _ => exact Nat.zero_le _

end Code

theorem Frame.exists_parent {s : Store} {f : Frame} {shapes : Nat → Option Shape} {ip below : Nat}
    (hs : s.Nested) (hfit : OperationFits shapes ip (f.shape s below) .exitScope) :
    ∃ env, s.parent f.env = some env ∧ f.baseDepth ≤ s.depth env := by
  have hopen : 1 ≤ s.depth f.env - f.baseDepth := hfit.1
  obtain ⟨env, henv, -, hdepth, -⟩ := hs.unwind_parent (show f.baseDepth < s.depth f.env by omega)
  exact ⟨env, henv, by omega⟩

/-! ## Operators and builtins -/

section Operators

variable {s : Store}

theorem arithmetic_ne_abort (op : ArithOp) (a b : Numeric) : arithmetic op a b ≠ .error .abort := by
  have hint : ∀ a b, intArith op a b ≠ .error .abort := by
    intro a b
    unfold intArith
    repeat' split
    all_goals simp
  have hfloat : ∀ a b, floatArith op a b ≠ .error .abort := by
    intro a b
    unfold floatArith
    repeat' split
    all_goals simp
  have hmap : ∀ x : Except Trouble Numeric, x ≠ .error .abort →
      x.map Numeric.toValue ≠ .error .abort := by
    rintro (t | n) hx h
    · cases h
      exact hx rfl
    · cases h
  unfold arithmetic
  split
  · exact hmap _ (hint _ _)
  · exact hmap _ (hfloat _ _)

theorem range_of_abort {op : BinaryOp} {left right : Value}
    (h : (binaryOp s op left right).1 = .error .abort) : op = .range := by
  cases op with
  | range => rfl
  | add | sub | mul | div | mod => exact (arithmetic_ne_abort _ _ _ h).elim
  | _ => cases h

theorem unaryOp_ne_abort (op : UnaryOp) (v : Value) : unaryOp s op v ≠ .error .abort := by
  unfold unaryOp
  repeat' split
  all_goals simp

theorem indexGet_ne_abort (object index : Value) : indexGet s object index ≠ .error .abort := by
  unfold indexGet
  dsimp only
  repeat' split
  all_goals simp

theorem indexSet_ne_abort (object index v : Value) :
    (indexSet s object index v).1 ≠ .error .abort := by
  unfold indexSet
  repeat' split
  all_goals simp

theorem apply_ne_abort (b : Builtin) (limit : Option Nat) (out : String) (args : List Value) :
    (b.apply limit s out args).result ≠ .error .abort := by
  cases b <;> simp only [Builtin.apply, writeText, pushOnto]
  all_goals
    repeat' split
    all_goals simp

end Operators

/-! ## Aborts -/

def Next.Aborted : Next → Prop
  | .done _ .aborted => True
  | _ => False

theorem Next.Canceled.not_aborted {next : Next} (h : next.Canceled) : ¬ next.Aborted := by
  cases next with
  | running m => exact id
  | done m outcome =>
    cases outcome with
    | aborted => exact h.elim
    | _ => exact id

def Value.Hollow : Value → Prop
  | .native _ _ none => True
  | _ => False

/-- A demand that no machine can meet: to make a range that is too wide, to run a builtin without an
    implementation, or to consume a marker of an unknown kind. -/
inductive Frame.Demands (t : Thread) (f : Frame) : Prop
  | range {i : Instruction} : f.instruction? = some i → i.op = .binary .range → Demands t f
  | run {callee : Value} : callee ∈ f.stack → callee.Hollow → Demands t f
  | resume {parked : TailCall Value} : t.trampoline = some parked → parked.target.Hollow → Demands t f
  | consume {marker : Marker} : t.channel = some marker → marker.kind.action? = none → Demands t f

namespace Machine

variable {m : Machine} {limits : Limits} {callers : List Suspended} {callee : Value} {args : List Value}
  {next : Next}

theorem aborted_raiseTrouble {t : Trouble} (h : (m.raiseTrouble callers t).Aborted) : t = .abort := by
  cases t with
  | abort => rfl
  | _ => exact h.elim

theorem aborted_raiseHere {span : Span} {t : Trouble} (h : (m.raiseHere span t).Aborted) :
    t = .abort := by
  cases t with
  | abort => rfl
  | _ => exact h.elim

theorem not_aborted_deliver (v : Value) : ¬(m.deliver callers v).Aborted := by
  unfold deliver
  cases callers <;> exact id

theorem Entered.hollow_of_aborted (h : m.Entered limits callers args callee next) (haborted : next.Aborted) :
    callee.Hollow := by
  cases h with
  | starts | noCode | arity | notCallable => exact haborted.elim
  | hollow => trivial
  | delivers => exact (not_aborted_deliver _ haborted).elim
  | fails ht => exact (apply_ne_abort _ _ _ _ (ht.trans (aborted_raiseTrouble haborted ▸ rfl))).elim

theorem Called.hollow_of_aborted (h : m.Called limits callers callee args next) (haborted : next.Aborted) :
    callee.Hollow := by
  cases h with
  | refused => exact haborted.elim
  | admitted _ hentered => exact hentered.hollow_of_aborted haborted

theorem Left.hollow_of_aborted {v : Value} (h : m.Left limits v next) (haborted : next.Aborted) :
    ∃ parked, m.thread.trampoline = some parked ∧ parked.target.Hollow := by
  cases h with
  | ended | astray => exact haborted.elim
  | replaced _ _ hparked hentered => exact ⟨_, hparked, hentered.hollow_of_aborted haborted⟩
  | delivers => exact (not_aborted_deliver _ haborted).elim

theorem hollow_tailCall (h : (m.tailCall limits callee args).Aborted) : callee.Hollow := by
  unfold tailCall at h
  split at h
  · exact h.elim
  · rename_i slot hpark
    obtain ⟨parked, rfl, htarget⟩ := (left ..).hollow_of_aborted h
    unfold Trampoline.park? at hpark
    split at hpark
    · cases hpark
      exact htarget
    · cases hpark

theorem hollow_signal {marker : Marker} (h : (m.signal limits marker).Aborted) :
    ∃ parked, m.thread.trampoline = some parked ∧ parked.target.Hollow := by
  unfold signal at h
  dsimp only at h
  split at h
  · exact h.elim
  · obtain ⟨parked, hparked, htarget⟩ := (left ..).hollow_of_aborted h
    exact ⟨parked, hparked, htarget⟩

theorem exists_target {table : DispatchTable} (htable : table.label ≠ "" → table.targets.isSome)
    {marker : Marker} {action : DispatchAction} {channel : Channel}
    (h : Channel.check? (some marker) table.label = some (action, channel)) :
    ∃ target, table.target? action = some target := by
  simp only [Channel.check?] at h
  split at h
  · cases h
    exact ⟨table.onward, rfl⟩
  · rename_i hlabel
    simp only [Bool.or_eq_true, decide_eq_true_eq, not_or] at hlabel
    obtain ⟨k, hk⟩ := Option.isSome_iff_exists.mp (htable hlabel.1)
    obtain ⟨_, haction, heq⟩ := Option.map_eq_some_iff.mp h
    cases heq
    refine ⟨k.of marker.kind, ?_⟩
    cases hkind : marker.kind <;> rw [hkind] at haction <;> cases haction
    all_goals simp only [DispatchTable.target?, hk, Option.map_some, Continuations.of]

/-- A dispatch point with continuations for its label aborts only for a marker of an unknown kind. -/
theorem unknown_dispatch {table : DispatchTable} (htable : table.label ≠ "" → table.targets.isSome)
    (h : (m.dispatch table).Aborted) :
    ∃ marker, m.thread.channel = some marker ∧ marker.kind.action? = none := by
  unfold dispatch at h
  cases hchannel : m.thread.channel with
  | none =>
    simp only [hchannel, Option.isNone_none, if_true] at h
    exact h.elim
  | some marker =>
    simp only [hchannel, Option.isNone_some, Bool.false_eq_true, if_false] at h
    refine ⟨marker, rfl, ?_⟩
    split at h
    · rename_i hcheck
      simp only [Channel.check?] at hcheck
      split at hcheck
      · cases hcheck
      · exact Option.map_eq_none_iff.mp hcheck
    · rename_i action channel hcheck
      obtain ⟨target, htarget⟩ := exists_target htable hcheck
      simp only [htarget] at h
      exact h.elim

theorem exists_cons_cons {stack : List Value} (h : 2 ≤ stack.length) :
    ∃ b a rest, stack = b :: a :: rest := by
  match stack, h with
  | b :: a :: rest, _ => exact ⟨b, a, rest, rfl⟩

theorem popMany?_callee {stack : List Value} {count : Nat} (h : count + 1 ≤ stack.length) :
    ∃ callee rest, popMany? count stack = some ((stack.take count).reverse, callee :: rest) ∧
      callee ∈ stack := by
  obtain ⟨callee, rest, hdrop⟩ := List.exists_cons_of_length_pos (l := stack.drop count)
    (by rw [List.length_drop]; omega)
  refine ⟨callee, rest, ?_, ?_⟩
  · rw [popMany?, if_pos (by omega), hdrop]
  · exact List.mem_of_mem_drop (hdrop ▸ List.mem_cons_self)

/-- An instruction that finds what it needs aborts only for a demand that no machine can meet. -/
theorem demands_exec {i : Instruction} (hi : m.frame.instruction? = some i)
    (harity : i.op.arity ≤ m.frame.stack.length) (hwalks : i.op.walks ≤ m.frame.iters.length)
    (hscope : i.op = .exitScope → (m.thread.store.parent m.frame.env).isSome)
    (htable : ∀ table, i.op = .dispatch table → table.label ≠ "" → table.targets.isSome)
    (h : (m.exec limits i).Aborted) : m.frame.Demands m.thread := by
  cases hop : i.op
  all_goals
    simp only [hop, Operation.arity] at harity
    simp only [hop, Operation.walks] at hwalks
    simp only [exec, hop] at h
  case const | result | makeSub | branch | jump | enterScope => exact h.elim
  case load =>
    split at h
    · exact h.elim
    · cases aborted_raiseHere h
  -- In the second branch of each `split` the stack is too low, which `harity` rules out.
  case declare | store | dup | pop | popResult | iterInit =>
    split at h
    · exact h.elim
    · simp_all
  case branchIfFalse | branchIfTrue =>
    split at h
    · split at h <;> exact h.elim
    · simp_all
  -- Here it is `hwalks` that rules out the second branch.
  case iterBind | iterPop =>
    split at h
    · exact h.elim
    · simp_all
  case iterNext =>
    split at h
    · split at h <;> exact h.elim
    · simp_all
  case dup2 =>
    obtain ⟨b, a, rest, hstack⟩ := exists_cons_cons harity
    simp only [hstack] at h
    exact h.elim
  case unary op =>
    obtain ⟨v, rest, hstack⟩ := List.exists_cons_of_length_pos harity
    simp only [hstack] at h
    split at h
    · exact h.elim
    · cases aborted_raiseHere h
      exact (unaryOp_ne_abort _ _ ‹_›).elim
  case binary op =>
    obtain ⟨right, left, rest, hstack⟩ := exists_cons_cons harity
    simp only [hstack] at h
    split at h
    · exact h.elim
    -- No other operator aborts, whatever its operands are.
    · rename_i t ht
      cases aborted_raiseHere h
      exact .range hi (hop.trans (congrArg _ (range_of_abort ht)))
  case indexGet =>
    obtain ⟨index, object, rest, hstack⟩ := exists_cons_cons harity
    simp only [hstack] at h
    split at h
    · exact h.elim
    · cases aborted_raiseHere h
      exact (indexGet_ne_abort _ _ ‹_›).elim
  case indexSet =>
    obtain ⟨v, index, below, hstack⟩ := exists_cons_cons (Nat.le_trans (by decide) harity)
    obtain ⟨object, rest, rfl⟩ : ∃ object rest, below = object :: rest := by
      simp only [hstack, List.length_cons] at harity
      exact List.exists_cons_of_length_pos (by omega)
    simp only [hstack] at h
    split at h
    · exact h.elim
    · cases aborted_raiseHere h
      exact (indexSet_ne_abort _ _ _ ‹_›).elim
  case makeArray count =>
    simp only [popMany?, harity, if_true] at h
    exact h.elim
  case exitScope =>
    obtain ⟨env, henv⟩ := Option.isSome_iff_exists.mp (hscope hop)
    simp only [henv] at h
    exact h.elim
  case call name count landing =>
    obtain ⟨callee, rest, hpop, hmem⟩ := popMany?_callee harity
    simp only [hpop] at h
    exact .run hmem ((called ..).hollow_of_aborted h)
  case tailCall count reuse =>
    split at h
    · split at h
      · exact .run (by simp_all) (hollow_tailCall h)
      · simp_all
    · obtain ⟨callee, rest, hpop, hmem⟩ := popMany?_callee (by simpa [*] using harity)
      simp only [hpop] at h
      exact .run hmem (hollow_tailCall h)
  -- The end of a frame aborts only where it starts a parked callee.
  case ret =>
    obtain ⟨v, rest, hstack⟩ := List.exists_cons_of_length_pos harity
    simp only [hstack] at h
    obtain ⟨parked, hparked, htarget⟩ := (left ..).hollow_of_aborted h
    exact .resume hparked htarget
  case signal marker =>
    obtain ⟨parked, hparked, htarget⟩ := hollow_signal h
    exact .resume hparked htarget
  case dispatch table =>
    obtain ⟨marker, hmarker, hkind⟩ := unknown_dispatch (htable table hop) h
    exact .consume hmarker hkind

/-- Without a parked tail call, a sound machine is cut off only in an instruction. -/
theorem Sound.exec_of_aborted (hm : m.Sound) (hslot : m.thread.trampoline = none) (h : (step limits m).Aborted) :
    ∃ i steps polls, m.frame.instruction? = some i ∧
      ({ m with steps := steps, polls := polls }.exec limits i).Aborted := by
  obtain ⟨-, hstep⟩ | ⟨i, hi, hcanceled | ⟨steps, polls, hstep⟩⟩ := hm.step_cases limits
  · rw [hstep] at h
    obtain ⟨parked, hparked, -⟩ := (left ..).hollow_of_aborted h
    cases hslot.symm.trans hparked
  · exact absurd h hcanceled.not_aborted
  · exact ⟨i, steps, polls, hi, hstep ▸ h⟩

/-- The table of a dispatch point with a label says where the verbs continue. -/
theorem Sound.targets (hm : m.Sound) {i : Instruction} (hi : m.frame.instruction? = some i) {table : DispatchTable}
    (hop : i.op = .dispatch table) : table.label ≠ "" → table.targets.isSome := by
  obtain ⟨ip, hip, hcode⟩ := Frame.instruction?_eq_some.mp hi
  obtain ⟨body, hbody⟩ := hm.frame.unit
  have hfits := hm.fits hip hcode hbody.consistent
  rw [hop] at hfits
  exact hfits.2.2.2

/-- A sound machine aborts only for a demand that no machine can meet: no instruction finds too little on
    the stacks of its frame, and none closes a scope that is not there. -/
theorem Sound.demands (hm : m.Sound) (h : (step limits m).Aborted) : m.frame.Demands m.thread := by
  obtain ⟨-, hstep⟩ | ⟨i, hi, hcanceled | ⟨steps, polls, hstep⟩⟩ := hm.step_cases limits
  · rw [hstep] at h
    obtain ⟨parked, hparked, htarget⟩ := (left ..).hollow_of_aborted h
    exact .resume hparked htarget
  · exact absurd h hcanceled.not_aborted
  · rw [hstep] at h
    obtain ⟨ip, hip, hcode⟩ := Frame.instruction?_eq_some.mp hi
    obtain ⟨body, hbody⟩ := hm.frame.unit
    have hfits := hm.fits hip hcode hbody.consistent
    refine demands_exec (m := { m with steps := steps, polls := polls }) hi hfits.arity_le hfits.walks_le
      (fun hop => ?_) (fun table hop => hm.targets hi hop) h
    obtain ⟨env, henv, -⟩ := Frame.exists_parent hm.thread.store.nested (hop ▸ hfits)
    exact Option.isSome_iff_exists.mpr ⟨env, henv⟩

end Machine

end KestrelLang
