import KestrelLang.Proofs.Code.Loops
import KestrelLang.Proofs.Machine.Activations
import KestrelLang.Proofs.Machine.Unwinding

/-! # Loops over elements walk a snapshot

* `Value.elementsIn` — the elements of a value as a loop goes through them.
* `Machine.taken` — the element that a step makes current in a walk.
* `Walk` — a run while a walk is under way, with the elements that it made current there.
* `Foreach.Reads` — how far a frame is in the walk of a loop.
* `Foreach.Reads.stepsTo`, `reads_step`, `Walk.reads` — an instruction, a step and a run keep to the order of the
  elements.
* `Code.Foreach.Obeys`, `CarriedTo.walk` — verbs for the loop, in its frame and in calls, leave the walk as it is.
* `foreach_walks_snapshot` — every walk of every run goes through the elements that were there when it began.
* `Growth.script` — a script in which a loop pushes onto the array that it walks. -/

namespace KestrelLang

open KestrelLang.Code

/-- The elements of a value as a loop goes through them: those of an array, none for undef, and any other value by
    itself. -/
def Value.elementsIn (s : Store) : Value → List Value
  | .array ref => (s.elements ref).toList
  | .undefined | .absent => []
  | v => [v]

theorem Machine.iterOf_eq (s : Store) (v : Value) : iterOf s v = ⟨(v.elementsIn s).toArray, 0, .absent⟩ := by
  cases v <;> simp [iterOf, Value.elementsIn]

/-! ## Walks -/

/-- The iterator of the frame that has `depth` others around it. -/
def Frame.walk? (f : Frame) (depth : Nat) : Option Iter := f.iters.reverse[depth]?

/-- The element that the frame `f` makes current in its walk at `depth` when it becomes `f'`, if it does so: it is at an
    instruction that takes an element, this is the innermost walk, and the frame goes on to the next address. -/
def Frame.taken (depth : Nat) (f f' : Frame) : List Value :=
  match f.instruction? with
  | some ⟨.iterNext _, _⟩ =>
    if f.iters.length = depth + 1 ∧ f'.ip = f.ip.map (· + 1) then (f'.iters.take 1).map (·.current) else []
  | _ => []

/-- The element that a step from `m` to `m'` makes current in the walk at `depth` of the frame at `level`, if it does
    so. -/
def Machine.taken (level depth : Nat) (m m' : Machine) : List Value :=
  if m.callers.length = level then m.frame.taken depth m'.frame else []

/-- The frame at `level` has a walk at `depth` under way. -/
def Machine.InWalk (level depth : Nat) (m : Machine) : Prop :=
  ∃ f, m.frames[level]? = some f ∧ depth < f.iters.length

/-- Steps lead from `m₁` to the machine, the walk at `depth` of the frame at `level` is under way all the while, and `ds`
    are the elements that the steps made current in it. -/
inductive Walk (limits : Limits) (level depth : Nat) (m₁ : Machine) : List Value → Machine → Prop
  | begins : Walk limits level depth m₁ [] m₁
  | goesOn {ds : List Value} {m m' : Machine} : Walk limits level depth m₁ ds m → step limits m = .running m' →
      m'.InWalk level depth → Walk limits level depth m₁ (ds ++ m.taken level depth m') m'

section Taken

variable {depth level ip ip' : Nat} {iters iters' : List Iter} {op : Operation CodeUnit} {f f' : Frame} {m m' : Machine}

theorem Frame.walk?_isSome {it : Iter} (h : f.walk? depth = some it) : depth < f.iters.length := by
  obtain ⟨hlt, -⟩ := List.getElem?_eq_some_iff.mp h
  rwa [List.length_reverse] at hlt

theorem Frame.walk?_cons {it : Iter} {outer : List Iter} (h : f.iters = it :: outer) :
    f.walk? outer.length = some it := by
  rw [walk?, h, List.reverse_cons, ← List.length_reverse]
  exact List.getElem?_concat_length

theorem Frame.taken_of_still {i : Instruction} (hi : f.instruction? = some i) (hop : ∀ stop, i.op ≠ .iterNext stop) :
    f.taken depth f' = [] := by
  obtain ⟨op, span⟩ := i
  rw [taken, hi]
  cases op <;> first | rfl | exact absurd rfl (hop _)

theorem Frame.taken_of_outer (h : f.iters.length ≠ depth + 1) : f.taken depth f' = [] := by
  unfold taken
  split
  · rw [if_neg fun hall => h hall.1]
  · rfl

theorem Machine.taken_eq_nil (h : m.callers.length = level → m.frame.taken depth m'.frame = []) :
    m.taken level depth m' = [] := by
  unfold Machine.taken
  split
  · exact h ‹_›
  · rfl

/-- An instruction keeps the walks that are under way before and after it, but for the one in which it takes an
    element. -/
theorem Moves.walk (h : Moves ip iters op ip' iters') (hd : depth < iters.length) (hd' : depth < iters'.length)
    (hinner : ∀ stop, op = .iterNext stop → depth + 1 < iters.length) : iters'.reverse[depth]? = iters.reverse[depth]? := by
  cases h with
  | on | branches | ends => rfl
  | begins it => rw [List.reverse_cons, List.getElem?_append_left (by simpa using hd)]
  | @takes stop it outer v hiters =>
    subst hiters
    have hlt := hinner _ rfl
    rw [List.length_cons] at hlt
    have hrest : depth < outer.reverse.length := by
      rw [List.length_reverse]
      omega
    rw [List.reverse_cons, List.reverse_cons, List.getElem?_append_left hrest, List.getElem?_append_left hrest]
  | drops hiters =>
    subst hiters
    rw [List.reverse_cons, List.getElem?_append_left (by simpa using hd')]
  | jumps =>
    rw [cutIters, List.length_drop] at hd'
    rw [cutIters, List.reverse_drop, List.getElem?_take_of_lt hd']

end Taken

theorem prefix_append_next {α : Type} {xs ds : List α} {v : α} (h : ds <+: xs) (hv : xs[ds.length]? = some v) :
    ds ++ [v] <+: xs := by
  obtain ⟨rest, rfl⟩ := h
  cases rest with
  | nil => simp at hv
  | cons w rest =>
    obtain rfl : w = v := by simpa using hv
    exact ⟨rest, by simp⟩

/-! ## Through the code of a loop -/

namespace Code.Foreach

structure Placed (l : Foreach) (u : CodeUnit) (shapes : Nat → Option Shape) : Prop where
  consistent : Consistent u.code shapes
  skeleton : l.Skeleton u.code
  closed : l.Closed u.code shapes
  ends : ∃ s, shapes (l.start + 1) = some s ∧ shapes (l.start + 2) = some s ∧ shapes l.stop = some s ∧
    s.iters = l.depth + 1

/-- Where the walk begins there is a loop, and no other walks are under way in the frame but those around it. -/
theorem exists_placed {m : Machine} (hm : m.Sound) {i : Instruction} (hi : m.frame.instruction? = some i)
    (hop : i.op = .iterInit) : ∃ (l : Foreach) (shapes : Nat → Option Shape), m.frame.ip = some l.start ∧
      l.StandsIn m.frame.unit.code ∧ l.Placed m.frame.unit shapes ∧ m.frame.iters.length = l.depth := by
  obtain ⟨ip, hip, hcode⟩ := Frame.instruction?_eq_some.mp hi
  obtain ⟨body, hbody⟩ := hm.frame.unit
  have hwalks := hbody.walksAt hcode
  simp only [WalksAt, hop] at hwalks
  obtain ⟨l, rfl, hstands, hclosed⟩ := hwalks
  have hskeleton := hstands.skeleton
  -- The shape in front of the walk gives those where elements are taken, where rounds start and where the walk is over.
  have hshape := hm.shaped.at_ip hip hbody.consistent
  have hinit := hbody.consistent.fits hshape hcode
  rw [hop] at hinit
  obtain ⟨i', hi', hop'⟩ := hskeleton.next
  have hnext := hbody.consistent.fits hinit.2 hi'
  rw [hop'] at hnext
  have hdepth : m.frame.iters.length = l.depth := hclosed.depth hshape
  refine ⟨l, _, hip, hstands, ⟨hbody.consistent, hskeleton, hclosed, _, hinit.2, hnext.2.1, hnext.2.2, ?_⟩, hdepth⟩
  rw [← hdepth]
  rfl

/-- The frame is in the walk of the loop over `xs`, in which the elements `ds` were made current: it is where the next
    element is taken, in a round, or after the last one. -/
structure Reads (l : Foreach) (u : CodeUnit) (xs ds : List Value) (f : Frame) : Prop where
  unit : f.unit = u
  walk : f.walk? l.depth = some ⟨xs.toArray, ds.length, ds.getLastD .absent⟩
  inOrder : ds <+: xs
  place : ∃ ip, f.ip = some ip ∧
    (ip = l.start + 1 ∨ ds ≠ [] ∧ l.start + 1 < ip ∧ ip < l.stop ∨ ds = xs ∧ ip = l.stop)

namespace Reads

variable {l : Foreach} {u : CodeUnit} {shapes : Nat → Option Shape} {xs ds : List Value} {f f' : Frame} {ip : Nat}
  {it : Iter} {outer : List Iter}

theorem rests (h : l.Reads u xs ds f) (hrests : f.Rests f') : l.Reads u xs ds f' := by
  obtain ⟨ip, hip, hplace⟩ := h.place
  refine ⟨hrests.unit.trans h.unit, ?_, h.inOrder, ip, hrests.ip.trans hip, hplace⟩
  rw [Frame.walk?, hrests.iters]
  exact h.walk

theorem head (h : l.Reads u xs ds f) (hiters : f.iters = it :: outer) (hlength : outer.length = l.depth) :
    it = ⟨xs.toArray, ds.length, ds.getLastD .absent⟩ := by
  have hwalk := Frame.walk?_cons hiters
  rw [hlength] at hwalk
  exact Option.some.inj (hwalk.symm.trans h.walk)

/-- Where the next element is taken, the one after those in `ds` becomes current, or there is none. -/
theorem takes (h : l.Reads u xs ds f) (hl : l.Placed u shapes) (hip : f.ip = some (l.start + 1))
    (hlength : f.iters.length = l.depth + 1) (hsteps : f.StepsTo f') : l.Reads u xs (ds ++ f.taken l.depth f') f' ∧
      ((∃ v, xs[ds.length]? = some v ∧ f.taken l.depth f' = [v] ∧ f'.ip = some (l.start + 2)) ∨
        ds = xs ∧ f.taken l.depth f' = [] ∧ f'.ip = some l.stop) := by
  obtain ⟨hunit, ip, i, ip', hip₁, hcode, hip', hmoves⟩ := hsteps
  obtain rfl := Option.some.inj (hip.symm.trans hip₁)
  obtain ⟨i', hi', hop⟩ := hl.skeleton.next
  rw [h.unit] at hcode
  obtain rfl := Option.some.inj (hi'.symm.trans hcode)
  -- Whether the element counts as taken depends only on where the frame goes on.
  have htaken : f.taken l.depth f' = if ip' = l.start + 2 then (f'.iters.take 1).map (·.current) else [] := by
    have hinstr : f.instruction? = some i' := Frame.instruction?_eq_some.mpr ⟨_, hip, h.unit ▸ hi'⟩
    obtain ⟨op, span⟩ := i'
    cases hop
    simp [Frame.taken, hinstr, hlength, hip, hip']
  have hstop := l.ip_stop
  rw [hop] at hmoves
  generalize hiters' : f'.iters = iters' at hmoves htaken
  cases hmoves with
  | on hon => exact hon.elim
  | branches hmem => exact absurd hmem List.not_mem_nil
  | jumps hmem => exact absurd hmem List.not_mem_nil
  | @takes stop it outer v hiters hv =>
    have houter : outer.length = l.depth := by simpa [hiters] using hlength
    obtain rfl := h.head hiters houter
    rw [List.getElem?_toArray] at hv
    rw [if_pos rfl] at htaken
    rw [htaken]
    refine ⟨⟨hunit.trans h.unit, ?_, ?_, _, hip', .inr (.inl ⟨by simp, by omega, by omega⟩)⟩, .inl ⟨v, hv, rfl, hip'⟩⟩
    · rw [← houter, Frame.walk?_cons hiters']
      simp
    · exact prefix_append_next h.inOrder hv
  | @ends stop it outer hiters hv =>
    obtain rfl := h.head hiters (by simpa [hiters] using hlength)
    rw [List.getElem?_toArray, List.getElem?_eq_none_iff] at hv
    have hall : ds = xs := h.inOrder.eq_of_length_le hv
    rw [if_neg (by omega)] at htaken
    rw [htaken, List.append_nil]
    refine ⟨⟨hunit.trans h.unit, ?_, h.inOrder, _, hip', .inr (.inr ⟨hall, rfl⟩)⟩, .inr ⟨hall, rfl, hip'⟩⟩
    rw [Frame.walk?, hiters']
    exact h.walk

/-- In a round the walk stays as it is: the frame stays in the round or comes back to where the next element is taken, and
    elements are taken in other walks only. -/
theorem round (h : l.Reads u xs ds f) (hl : l.Placed u shapes) (hip : f.ip = some ip) (hlo : l.start + 1 < ip)
    (hhi : ip < l.stop) (hsome : ds ≠ []) (hshape : ∃ s, shapes ip = some s ∧ s.iters = f.iters.length)
    (hsteps : f.StepsTo f') (halive : l.depth < f'.iters.length) :
    l.Reads u xs ds f' ∧ f.taken l.depth f' = [] := by
  obtain ⟨hunit, ip₁, i, ip', hip₁, hcode, hip', hmoves⟩ := hsteps
  obtain rfl := Option.some.inj (hip.symm.trans hip₁)
  rw [h.unit] at hcode
  obtain ⟨s, hs, hiters⟩ := hshape
  obtain ⟨s₁, hinside, hfits⟩ := hl.closed.fits hlo hhi hcode
  obtain rfl : s = s₁ := Option.some.inj (hs.symm.trans (Foreach.inside_eq_some.mp hinside).1)
  have hinner : ∀ stop, i.op = .iterNext stop → l.depth + 1 < f.iters.length := by
    intro stop hop
    rw [← hiters]
    exact hl.closed.takes hlo hhi hcode hop hs
  -- The new address has a shape among those inside the loop, and one outside of its rounds would end the walk.
  obtain ⟨s', hs', hiters'⟩ := hmoves.fits hiters hfits
  have hplace := (Foreach.inside_eq_some.mp hs').2
  refine ⟨⟨hunit.trans h.unit, ?_, h.inOrder, ip', hip', ?_⟩, ?_⟩
  · rw [Frame.walk?, hmoves.walk (Frame.walk?_isSome h.walk) halive hinner]
    exact h.walk
  · by_cases hnext : ip' = l.start + 1
    · exact .inl hnext
    · exact .inr (.inl ⟨hsome, by omega, by omega⟩)
  · by_cases hop : ∃ stop, i.op = .iterNext stop
    · obtain ⟨stop, hop⟩ := hop
      exact Frame.taken_of_outer (Nat.ne_of_gt (hinner stop hop))
    · exact Frame.taken_of_still (Frame.instruction?_eq_some.mpr ⟨_, hip, h.unit ▸ hcode⟩) fun stop h => hop ⟨stop, h⟩

theorem not_alive (h : l.Reads u xs ds f) (hl : l.Placed u shapes) (hip : f.ip = some l.stop)
    (hlength : f.iters.length = l.depth + 1) (hsteps : f.StepsTo f') : f'.iters.length = l.depth := by
  obtain ⟨-, ip, i, ip', hip₁, hcode, -, hmoves⟩ := hsteps
  obtain rfl := Option.some.inj (hip.symm.trans hip₁)
  obtain ⟨i', hi', hop⟩ := hl.skeleton.drops
  rw [h.unit] at hcode
  obtain rfl := Option.some.inj (hi'.symm.trans hcode)
  rw [hop] at hmoves
  generalize f'.iters = iters' at hmoves
  cases hmoves with
  | on hon => exact hon.elim
  | branches hmem => exact absurd hmem List.not_mem_nil
  | jumps hmem => exact absurd hmem List.not_mem_nil
  | drops hiters => simpa [hiters] using hlength

/-- An instruction of the frame keeps to the order of the elements, as long as the walk is under way. -/
theorem stepsTo (h : l.Reads u xs ds f) (hl : l.Placed u shapes)
    (hshape : ∀ ip, f.ip = some ip → ∃ s, shapes ip = some s ∧ s.iters = f.iters.length)
    (hsteps : f.StepsTo f') (halive : l.depth < f'.iters.length) : l.Reads u xs (ds ++ f.taken l.depth f') f' := by
  obtain ⟨ip, hip, hplace⟩ := h.place
  obtain ⟨s, hs, hiters⟩ := hshape ip hip
  obtain ⟨s₁, hnext, -, hstop, hlength⟩ := hl.ends
  obtain rfl | ⟨hsome, hlo, hhi⟩ | ⟨-, rfl⟩ := hplace
  · obtain rfl := Option.some.inj (hs.symm.trans hnext)
    exact (h.takes hl hip (hiters ▸ hlength) hsteps).1
  · obtain ⟨hreads, hnone⟩ := h.round hl hip hlo hhi hsome ⟨s, hs, hiters⟩ hsteps halive
    rwa [hnone, List.append_nil]
  · obtain rfl := Option.some.inj (hs.symm.trans hstop)
    exact absurd halive (by rw [h.not_alive hl hip (hiters ▸ hlength) hsteps]; omega)

end Reads

end Code.Foreach

/-! ## Through steps and runs -/

section Runs

variable {limits : Limits} {m m' m₁ : Machine} {l : Foreach} {u : CodeUnit} {shapes : Nat → Option Shape}
  {level : Nat} {xs ds : List Value} {f f' : Frame} {i : Instruction}

theorem Machine.Sound.running (hm : m.Sound) (hstep : step limits m = .running m') : m'.Sound := by
  have hnext : (step limits m).Sound := sound_step hm
  rw [hstep] at hnext
  exact hnext

theorem Frame.AtCall.taken {depth : Nat} (h : f.AtCall) : f.taken depth f' = [] := by
  obtain ⟨name, count, landing, span, hi⟩ := h
  exact taken_of_still hi nofun

/-- A step keeps to the order of the elements, as long as the walk is under way: the frame of the walk runs its own
    instruction, or others run while it waits. -/
theorem reads_step (hm : m.Sound) (hl : l.Placed u shapes) (hf : m.frames[level]? = some f) (h : l.Reads u xs ds f)
    (hstep : step limits m = .running m') (hf' : m'.frames[level]? = some f') (halive : l.depth < f'.iters.length) :
    l.Reads u xs (ds ++ m.taken level l.depth m') f' := by
  have hwalks : f'.iters ≠ [] := List.ne_nil_of_length_pos (Nat.lt_of_le_of_lt (Nat.zero_le _) halive)
  obtain ⟨f₀, hf₀, hpasses⟩ := passes_step hm hstep hf' hwalks
  obtain rfl := Option.some.inj (hf.symm.trans hf₀)
  have hsteps : f.StepsTo f' → l.Reads u xs (ds ++ f.taken l.depth f') f' := fun hsteps =>
    h.stepsTo hl (fun ip hip => hm.shape_at hf hip (h.unit ▸ hl.consistent)) hsteps halive
  cases hpasses with
  | own hlevel hcurrent hcallers hcurrent' hown =>
    subst hlevel hcurrent hcurrent'
    rw [Machine.taken, if_pos rfl]
    exact hsteps hown
  | others hcall hothers =>
    have hnone : m.taken level l.depth m' = [] := Machine.taken_eq_nil fun hlevel => (hcall hlevel.symm).taken
    rw [hnone, List.append_nil]
    obtain hrests | ⟨hat, hreturns⟩ := hothers
    · exact h.rests hrests
    · have hreads := hsteps hreturns
      rwa [hat.taken, List.append_nil] at hreads

/-- In every run the elements that were made current in the walk are the first ones of the list, in its order. -/
theorem Walk.reads (hm₁ : m₁.Sound) (hl : l.Placed u shapes)
    (hstart : ∃ f, m₁.frames[level]? = some f ∧ l.Reads u xs [] f) (h : Walk limits level l.depth m₁ ds m) :
    m.Sound ∧ ∃ f, m.frames[level]? = some f ∧ l.Reads u xs ds f := by
  induction h with
  | begins => exact ⟨hm₁, hstart⟩
  | goesOn _ hstep hin ih =>
    obtain ⟨hm, f, hf, hreads⟩ := ih
    obtain ⟨f', hf', halive⟩ := hin
    exact ⟨hm.running hstep, f', hf', reads_step hm hl hf hreads hstep hf' halive⟩

/-- The instruction that begins a walk takes all elements of the value on top of the stack as they are then. -/
theorem reads_iterInit (hi : m.frame.instruction? = some i) (hop : i.op = .iterInit)
    (hip : m.frame.ip = some l.start) (hdepth : m.frame.iters.length = l.depth) (hstep : step limits m = .running m') :
    ∃ v rest, m.frame.stack = v :: rest ∧ m'.frames[m.callers.length]? = some m'.frame ∧
      l.Reads m.frame.unit (v.elementsIn m.thread.store) [] m'.frame := by
  obtain hcanceled | ⟨steps, polls, hexec⟩ := Machine.step_of_instruction limits hi
  · rw [hstep] at hcanceled
    exact hcanceled.elim
  · simp only [hexec, Machine.exec, hop] at hstep
    split at hstep
    · rename_i v rest hstack
      cases hstep
      refine ⟨v, rest, hstack, getElem?_frames_current _, rfl, ?_, List.nil_prefix, _, by simp [hip], .inl rfl⟩
      rw [Machine.iterOf_eq, ← hdepth]
      exact Frame.walk?_cons rfl
    · cases hstep

end Runs

/-! ## Verbs of the loop -/

/-- The run goes on with such a machine, unless the host stops it. -/
def Next.Comes (P : Machine → Prop) (next : Next) : Prop := next.Canceled ∨ ∃ m, next = .running m ∧ P m

namespace Code.Foreach

/-- Where the loop continues for `next` and `redo`. -/
def resume? (l : Foreach) : MarkerKind → Option Nat
  | .proceed => some (l.start + 1)
  | .restart => some (l.start + 2)
  | _ => none

/-- The running frame is at such a verb for the loop, or at a point where the loop takes a pending marker of the kind. -/
inductive Obeys (l : Foreach) (kind : MarkerKind) (m : Machine) : Prop
  | verb {i : Instruction} : m.frame.instruction? = some i → i.op = .jump (l.targets.of kind) → Obeys l kind m
  | marker {i : Instruction} {o : OpenScope} {onward : JumpTarget} {marker : Marker} :
      m.frame.instruction? = some i → i.op = .dispatch (o.table onward) → o.targets = l.targets →
      m.thread.channel = some marker → o.label = marker.target → marker.target ≠ "" → marker.kind = kind → Obeys l kind m

variable {l : Foreach} {kind : MarkerKind} {ip : Nat} {m : Machine} {limits : Limits}

theorem targets_of_resume? (h : l.resume? kind = some ip) : l.targets.of kind = .to ip l.spot.scopes (l.depth + 1) := by
  cases kind <;> cases h <;> rfl

theorem known_of_resume? (h : l.resume? kind = some ip) : ∃ verb, MarkerKind.ofVerb? verb = some kind := by
  cases kind <;> cases h
  · exact ⟨.next, rfl⟩
  · exact ⟨.redo, rfl⟩

theorem Obeys.comes (h : l.Obeys kind m) (hip : l.resume? kind = some ip) : (step limits m).Comes fun m' =>
    m'.callers = m.callers ∧ ∃ s, m'.frame = m.frame.jump s (.to ip l.spot.scopes (l.depth + 1)) := by
  have htarget := targets_of_resume? hip
  cases h with
  | verb hi hop =>
    obtain hcanceled | ⟨steps, polls, hstep⟩ := Machine.step_of_instruction limits hi
    · exact .inl hcanceled
    · simp only [Machine.exec, hop, htarget] at hstep
      exact .inr ⟨_, hstep, rfl, _, rfl⟩
  | marker hi hop htargets hchannel hlabel hne hkind =>
    obtain hcanceled | ⟨steps, polls, hstep⟩ := Machine.step_of_instruction limits hi
    · exact .inl hcanceled
    · obtain ⟨events, htakes⟩ := Machine.dispatch_takes (m := { m with steps := steps, polls := polls }) hchannel
        ⟨hne, hkind ▸ known_of_resume? hip⟩ hlabel _
      simp only [Machine.exec, hop] at hstep
      rw [htakes, htargets, hkind, htarget] at hstep
      exact .inr ⟨_, hstep, rfl, _, rfl⟩

theorem Obeys.still (h : l.Obeys kind m) {depth : Nat} {f' : Frame} : m.frame.taken depth f' = [] := by
  cases h with
  | verb hi hop => exact Frame.taken_of_still hi (by simp [hop])
  | marker hi hop => exact Frame.taken_of_still hi (by simp [hop])

end Code.Foreach

/-! ## Markers from other frames -/

theorem CarriedTo.mono {limits : Limits} {marker : Marker} {Q Q' : Next → Prop} {next : Next}
    (h : CarriedTo limits marker Q next) (hQ : ∀ next, Q next → Q' next) : CarriedTo limits marker Q' next := by
  induction h with
  | arrives hq => exact .arrives (hQ _ hq)
  | canceled hcanceled => exact .canceled hcanceled
  | step hpending _ ih => exact .step hpending ih

section Carried

variable {limits : Limits} {marker : Marker} {m m' m₁ : Machine} {level depth : Nat} {ds : List Value} {f f' : Frame}
  {i : Instruction} {R : Machine → Prop} {next : Next}

/-- Only the instruction that begins a walk leaves a frame in more of them. -/
theorem Frame.StepsTo.length_le (h : f.StepsTo f') (hi : f.instruction? = some i) (hop : i.op ≠ .iterInit) :
    f'.iters.length ≤ f.iters.length := by
  obtain ⟨-, ip, i', ip', hip, hcode, -, hmoves⟩ := h
  obtain rfl := Option.some.inj (hi.symm.trans (Frame.instruction?_eq_some.mpr ⟨ip, hip, hcode⟩))
  generalize f'.iters = iters', f.iters = iters, i.op = op at hmoves hop ⊢
  cases hmoves with
  | on | branches | ends => exact Nat.le_refl _
  | takes hiters => simp [hiters]
  | drops hiters => simp [hiters]
  | begins => exact absurd rfl hop
  | jumps =>
    rw [cutIters, List.length_drop]
    exact Nat.sub_le ..

/-- With a marker pending the frame is about to end, or at a dispatch point. -/
theorem Machine.Clear.point (hclear : m.Clear) (hpending : m.thread.channel = some marker) (hi : m.frame.instruction? = some i) :
    ∃ table, i.op = .dispatch table := by
  obtain hnone | hchain := hclear
  · cases hnone.symm.trans hpending
  · obtain hip | ⟨i', table, -, hi', hop, -⟩ := hchain.head
    · simp [Frame.instruction?, hip] at hi
    · obtain rfl := Option.some.inj (hi.symm.trans hi')
      exact ⟨table, hop⟩

theorem Machine.Clear.taken (hclear : m.Clear) (hpending : m.thread.channel = some marker) :
    m.taken level depth m' = [] := by
  refine Machine.taken_eq_nil fun _ => ?_
  cases hi : m.frame.instruction? with
  | none => simp [Frame.taken, hi]
  | some i =>
    obtain ⟨table, hop⟩ := hclear.point hpending hi
    exact Frame.taken_of_still hi (by simp [hop])

theorem Machine.InWalk.before (hm : m.Sound) (hclear : m.Clear) (hpending : m.thread.channel = some marker)
    (hstep : step limits m = .running m') (h : m'.InWalk level depth) : m.InWalk level depth := by
  obtain ⟨f', hf', hin⟩ := h
  obtain ⟨f, hf, hpasses⟩ := passes_step hm hstep hf' (List.ne_nil_of_length_pos (Nat.lt_of_le_of_lt (Nat.zero_le _) hin))
  refine ⟨f, hf, Nat.lt_of_lt_of_le hin ?_⟩
  cases hpasses with
  | own hlevel hcurrent hcallers hcurrent' hsteps =>
    subst hcurrent
    obtain ⟨ip, i, -, hip, hcode, -⟩ := hsteps.moves
    have hi := Frame.instruction?_eq_some.mpr ⟨ip, hip, hcode⟩
    obtain ⟨table, hop⟩ := hclear.point hpending hi
    exact hsteps.length_le hi (by simp [hop])
  | others _ hothers =>
    obtain hrests | ⟨⟨name, count, landing, span, hi⟩, hsteps⟩ := hothers
    · exact Nat.le_of_eq (by rw [hrests.iters])
    · exact hsteps.length_le hi nofun

/-- A walk that is under way where a marker arrives was so while it was pending, unless the host stops the run. -/
theorem CarriedTo.inWalk (h : CarriedTo limits marker (fun next => ∃ m, next = .running m ∧ R m) next)
    (hR : ∀ m, R m → m.InWalk level depth) (hsound : next.Sound) (hclear : next.Clear) :
    CarriedTo limits marker (fun _ => False) next ∨ ∃ m, next = .running m ∧ m.InWalk level depth := by
  -- Backwards from where it arrives: the steps on the way only drop iterators.
  induction h with
  | arrives hq =>
    obtain ⟨m, rfl, hr⟩ := hq
    exact .inr ⟨m, rfl, hR m hr⟩
  | canceled hcanceled => exact .inl (.canceled hcanceled)
  | @step m hpending _ ih =>
    obtain hstops | ⟨m', hstep, hin⟩ := ih (sound_step hsound) (clear_step hsound hclear)
    · exact .inl (.step hpending hstops)
    · exact .inr ⟨m, rfl, hin.before hsound hclear hpending hstep⟩

/-- While a marker is pending, no element is taken: the walk is as it was when the marker arrives. -/
theorem CarriedTo.walk (h : CarriedTo limits marker (fun next => ∃ m, next = .running m ∧ R m) next)
    (hR : ∀ m, R m → m.InWalk level depth) (hsound : next.Sound) (hclear : next.Clear)
    (hwalk : ∀ m, next = .running m → m.InWalk level depth → Walk limits level depth m₁ ds m) :
    CarriedTo limits marker (fun next => ∃ m, next = .running m ∧ Walk limits level depth m₁ ds m ∧ R m) next := by
  -- Forwards now: that the walk is under way in each machine on the way is known from its arrival.
  induction h with
  | arrives hq =>
    obtain ⟨m, rfl, hr⟩ := hq
    exact .arrives ⟨m, rfl, hwalk m rfl (hR m hr), hr⟩
  | canceled hcanceled => exact .canceled hcanceled
  | @step m hpending hrest ih =>
    obtain hstops | ⟨m', heq, hin⟩ := CarriedTo.inWalk (.step hpending hrest) hR hsound hclear
    · exact hstops.mono fun _ => False.elim
    · cases heq
      refine .step hpending (ih (sound_step hsound) (clear_step hsound hclear) fun m' hstep hin' => ?_)
      have hgoes := (hwalk m rfl hin).goesOn hstep hin'
      rwa [Machine.Clear.taken hclear hpending, List.append_nil] at hgoes

end Carried

/-! ## The rounds of the loop -/

theorem Next.Comes.mono {P Q : Machine → Prop} {next : Next} (h : next.Comes P)
    (hpq : ∀ m, next = .running m → P m → Q m) : next.Comes Q := by
  obtain hcanceled | ⟨m, hnext, hp⟩ := h
  · exact .inl hcanceled
  · exact .inr ⟨m, hnext, hpq m hnext hp⟩

theorem Store.get?_define_self {s : Store} {id : Nat} (hid : id < s.envs.size) (name : String) (v : Value) :
    (s.define id name v).get? name id = some v := by
  have hput : ∀ b : Bindings, (b.put name v).get? name = some v := by
    intro b
    induction b with
    | nil => simp [Bindings.put, Bindings.get?]
    | cons first rest ih =>
      obtain ⟨n, w⟩ := first
      by_cases hn : n = name
      · simp [Bindings.put, Bindings.get?, hn]
      · simp [Bindings.put, Bindings.get?, hn, ih]
  have howner : (s.define id name v).owner? name id = some id := by
    unfold owner?
    simp [env_define, hid, Bindings.has, hput]
  simp [get?, howner, env_define, hid, hput]

namespace Machine

variable {limits : Limits} {m : Machine} {i : Instruction}

theorem comes_iterNext {stop : Nat} (hi : m.frame.instruction? = some i) (hop : i.op = .iterNext stop)
    (hiters : m.frame.iters ≠ []) : (step limits m).Comes fun m' => m'.callers = m.callers ∧ m.frame.StepsTo m'.frame := by
  obtain ⟨ip, hip, hcode⟩ := Frame.instruction?_eq_some.mp hi
  obtain ⟨it, outer, hcons⟩ := List.exists_cons_of_ne_nil hiters
  obtain hcanceled | ⟨steps, polls, hstep⟩ := step_of_instruction limits hi
  · exact .inl hcanceled
  · simp only [exec, hop, hcons] at hstep
    cases hnext : it.elements[it.next]? with
    | some v =>
      rw [hnext] at hstep
      exact .inr ⟨_, hstep, rfl, rfl, ip, i, ip + 1, hip, hcode, by simp [hip], hop ▸ .takes hcons hnext⟩
    | none =>
      rw [hnext] at hstep
      exact .inr ⟨_, hstep, rfl, rfl, ip, i, stop, hip, hcode, rfl, hop ▸ .ends hcons hnext⟩

theorem comes_enterScope (hi : m.frame.instruction? = some i) (hop : i.op = .enterScope) :
    (step limits m).Comes fun m' => m'.frame.unit = m.frame.unit ∧ m'.frame.ip = m.frame.ip.map (· + 1) ∧
      m'.frame.iters = m.frame.iters := by
  obtain hcanceled | ⟨steps, polls, hstep⟩ := step_of_instruction limits hi
  · exact .inl hcanceled
  · simp only [exec, hop] at hstep
    exact .inr ⟨_, hstep, rfl, rfl, rfl⟩

theorem comes_iterBind {name : String} {it : Iter} {outer : List Iter} (hi : m.frame.instruction? = some i)
    (hop : i.op = .iterBind name) (hiters : m.frame.iters = it :: outer) (henv : m.frame.env < m.thread.store.envs.size) :
    (step limits m).Comes fun m' => m'.thread.store.get? name m'.frame.env = some it.current := by
  obtain hcanceled | ⟨steps, polls, hstep⟩ := step_of_instruction limits hi
  · exact .inl hcanceled
  · simp only [exec, hop, hiters] at hstep
    exact .inr ⟨_, hstep, Store.get?_define_self henv name it.current⟩

end Machine

namespace Code.Foreach

/-- What holds of a loop over the elements `xs` when a run from `m₁`, where its walk begins, comes to `m` and has made the
    elements `ds` current. -/
structure GoesThrough (limits : Limits) (level : Nat) (m₁ : Machine) (l : Foreach) (xs ds : List Value) (m : Machine) :
    Prop where
  /-- The elements become current in their order, each of them at most once. -/
  inOrder : ds <+: xs
  /-- Where the loop goes on, the following element becomes current, or all of them were and the loop ends. -/
  next : m.callers.length = level → m.frame.ip = some (l.start + 1) → (step limits m).Comes fun m' =>
    (∃ v, xs[ds.length]? = some v ∧ m.taken level l.depth m' = [v] ∧ m'.frame.ip = some (l.start + 2)) ∨
      ds = xs ∧ m.taken level l.depth m' = [] ∧ m'.frame.ip = some l.stop
  /-- At the start of a round the loop variable is bound to the current element. -/
  binds : m.callers.length = level → m.frame.ip = some (l.start + 2) → ∃ v, ds.getLast? = some v ∧
    (step limits m).Comes fun m' => (step limits m').Comes fun m'' =>
      m''.thread.store.get? l.item.text m''.frame.env = some v
  /-- After `next` the loop goes on, and after `redo` it starts a round, with the same elements behind it. -/
  resumes : ∀ kind ip, l.resume? kind = some ip → m.callers.length = level → l.Obeys kind m →
    (step limits m).Comes fun m' => Walk limits level l.depth m₁ ds m' ∧ m'.callers.length = level ∧ m'.frame.ip = some ip
  /-- So it does after a verb in a frame further inside, whose marker comes to this loop as the innermost one with its
      label. -/
  carries : ∀ i marker ip, m.frame.instruction? = some i → i.op = .signal marker → m.thread.channel = none →
    l.resume? marker.kind = some ip →
    ∀ (inner : List (Suspended × List OpenScope)) (x : Suspended) (around : List OpenScope) (o : OpenScope)
      (outer : List Suspended), m.callers = inner.map Prod.fst ++ x :: outer → outer.length = level →
    (∀ c ∈ inner, c.1.Within c.2) → x.Within around → (∀ c ∈ inner, ∀ o' ∈ c.2, o'.label ≠ marker.target) →
    around.find? (·.label = marker.target) = some o → o.targets = l.targets →
    CarriedTo limits marker (fun next => ∃ m', next = .running m' ∧ Walk limits level l.depth m₁ ds m' ∧
      m'.callers.length = level ∧ m'.frame.ip = some ip) (step limits m)
  /-- A loop that is over has made every element current. -/
  exhausts : m.callers.length = level → m.frame.ip = some l.stop → ds = xs

variable {limits : Limits} {level ip : Nat} {m₁ m m' : Machine} {l : Foreach} {u : CodeUnit} {shapes : Nat → Option Shape}
  {xs ds : List Value} {kind : MarkerKind}

theorem Reads.current (hlevel : m.callers.length = level)
    (h : ∃ f, m.frames[level]? = some f ∧ l.Reads u xs ds f) : l.Reads u xs ds m.frame := by
  subst hlevel
  obtain ⟨f, hf, hreads⟩ := h
  rwa [← Option.some.inj ((getElem?_frames_current m).symm.trans hf)] at hreads

theorem Placed.length_iters (hl : l.Placed u shapes) (hm : m.Sound) (hunit : m.frame.unit = u) (hip : m.frame.ip = some ip)
    (hat : ip = l.start + 1 ∨ ip = l.start + 2) : m.frame.iters.length = l.depth + 1 := by
  obtain ⟨s, hs, hiters⟩ := hm.shape_at (getElem?_frames_current m) hip (hunit ▸ hl.consistent)
  obtain ⟨s₁, hnext, hbody, -, hlength⟩ := hl.ends
  have hsame : s = s₁ := by
    obtain rfl | rfl := hat
    · exact Option.some.inj (hs.symm.trans hnext)
    · exact Option.some.inj (hs.symm.trans hbody)
  rw [← hiters, hsame, hlength]

theorem Reads.comes_next (h : l.Reads u xs ds m.frame) (hl : l.Placed u shapes) (hm : m.Sound)
    (hip : m.frame.ip = some (l.start + 1)) : (step limits m).Comes fun m' =>
      (∃ v, xs[ds.length]? = some v ∧ m.frame.taken l.depth m'.frame = [v] ∧ m'.frame.ip = some (l.start + 2)) ∨
        ds = xs ∧ m.frame.taken l.depth m'.frame = [] ∧ m'.frame.ip = some l.stop := by
  have hlength := hl.length_iters hm h.unit hip (.inl rfl)
  obtain ⟨i, hi, hop⟩ := hl.skeleton.next
  rw [← h.unit] at hi
  refine (Machine.comes_iterNext (Frame.instruction?_eq_some.mpr ⟨_, hip, hi⟩) hop ?_).mono fun m' _ hgoes => ?_
  · exact List.ne_nil_of_length_eq_add_one hlength
  · exact (h.takes hl hip hlength hgoes.2).2

theorem Reads.comes_binds (h : l.Reads u xs ds m.frame) (hl : l.Placed u shapes) (hm : m.Sound)
    (hip : m.frame.ip = some (l.start + 2)) : ∃ v, ds.getLast? = some v ∧
      (step limits m).Comes fun m' => (step limits m').Comes fun m'' =>
        m''.thread.store.get? l.item.text m''.frame.env = some v := by
  have hlength := hl.length_iters hm h.unit hip (.inr rfl)
  -- A round only starts when an element was taken.
  have hsome : ds ≠ [] := by
    obtain ⟨ip, hip', hplace⟩ := h.place
    obtain rfl := Option.some.inj (hip.symm.trans hip')
    have hstop := l.ip_stop
    obtain hnext | ⟨hsome, -⟩ | ⟨-, hend⟩ := hplace
    · omega
    · exact hsome
    · omega
  obtain ⟨it, outer, hiters⟩ := List.exists_cons_of_length_eq_add_one hlength
  obtain rfl := h.head hiters (by simpa [hiters] using hlength)
  obtain ⟨i, hi, hop⟩ := hl.skeleton.opens
  obtain ⟨i', hi', hop'⟩ := hl.skeleton.binds
  rw [← h.unit] at hi hi'
  refine ⟨ds.getLastD .absent, by simp [List.getLastD_eq_getLast?, List.getLast?_eq_some_getLast hsome], ?_⟩
  refine (Machine.comes_enterScope (Frame.instruction?_eq_some.mpr ⟨_, hip, hi⟩) hop).mono ?_
  rintro m' hstep ⟨hunit, hip', hsame⟩
  rw [hip, Option.map_some] at hip'
  rw [hiters] at hsame
  exact Machine.comes_iterBind (Frame.instruction?_eq_some.mpr ⟨_, hip', hunit ▸ hi'⟩) hop' hsame
    (hm.running hstep).frame.env

theorem inWalk_of_length (hlevel : m.callers.length = level) (h : m.frame.iters.length = l.depth + 1) :
    m.InWalk level l.depth :=
  ⟨m.frame, hlevel ▸ getElem?_frames_current m, by omega⟩

theorem Reads.comes_resumes (h : l.Reads u xs ds m.frame) (hwalk : Walk limits level l.depth m₁ ds m)
    (hlevel : m.callers.length = level) (hip : l.resume? kind = some ip) (hobeys : l.Obeys kind m) :
    (step limits m).Comes fun m' =>
      Walk limits level l.depth m₁ ds m' ∧ m'.callers.length = level ∧ m'.frame.ip = some ip := by
  refine (hobeys.comes hip).mono ?_
  rintro m' hstep ⟨hcallers, s, hjump⟩
  have hlevel' : m'.callers.length = level := hcallers ▸ hlevel
  have hlength : m'.frame.iters.length = l.depth + 1 := by
    rw [hjump]
    exact Frame.length_cutIters (Frame.walk?_isSome h.walk)
  have hgoes := hwalk.goesOn hstep (inWalk_of_length hlevel' hlength)
  rw [Machine.taken, if_pos hlevel, hobeys.still, List.append_nil] at hgoes
  exact ⟨hgoes, hlevel', by rw [hjump]; rfl⟩

section Far

variable {i : Instruction} {marker : Marker} {inner : List (Suspended × List OpenScope)} {x : Suspended}
  {around : List OpenScope} {o : OpenScope} {outer : List Suspended}

/-- The marker of a verb in a frame further inside comes to the loop, and the frame of the loop is cut back to its walk. -/
theorem carried_back (hm : m.Sound) (hi : m.frame.instruction? = some i) (hop : i.op = .signal marker)
    (hchannel : m.thread.channel = none) (hip : l.resume? marker.kind = some ip)
    (hcallers : m.callers = inner.map Prod.fst ++ x :: outer) (hinner : ∀ c ∈ inner, c.1.Within c.2)
    (hx : x.Within around) (hfree : ∀ c ∈ inner, ∀ o' ∈ c.2, o'.label ≠ marker.target)
    (hfind : around.find? (·.label = marker.target) = some o) (htargets : o.targets = l.targets) :
    CarriedTo limits marker (fun next => ∃ m', next = .running m' ∧ m'.callers = outer ∧ m'.frame.ip = some ip ∧
      m'.frame.iters.length = l.depth + 1) (step limits m) := by
  have hstore := hm.thread.store.nested
  obtain ⟨address, haddress, hcode⟩ := Frame.instruction?_eq_some.mp hi
  have hmarker := hm.frame.unit.proper hcode hop
  have hsound : ∀ y ∈ inner.map Prod.fst ++ x :: outer, y.Sound m.thread.store := hcallers ▸ hm.callers
  rw [List.forall_mem_append, List.forall_mem_cons] at hsound
  -- The marker leaves its own frame, then those in between, and then comes to that of the loop.
  refine carried_signal hi hop hchannel fun m₂ h₂ => ?_
  refine carried_frames hmarker inner (h₂.store ▸ hstore) (h₂.callers.trans hcallers) ?_ hinner hfree h₂.channel
    fun m₃ h₃ => ?_
  · exact fun c hc => h₂.store ▸ hsound.1 c.1 (List.mem_map_of_mem hc)
  have hkept := h₂.trans h₃
  refine carried_caller hmarker (hkept.store ▸ hstore) (hkept.store ▸ hsound.2.1) hx hkept.channel hkept.callers ?_ ?_
  · intro o' m' ho' hm' hcut
    obtain rfl := Option.some.inj (hfind.symm.trans ho')
    obtain ⟨_, _, _, htarget, hip', -, -, hlength⟩ := hcut.depths
    rw [htargets, targets_of_resume? hip] at htarget
    cases htarget
    exact ⟨m', rfl, hm'.callers, hip', hlength⟩
  · intro m' hnone
    cases hfind.symm.trans hnone

/-- On its way no element is taken, and the walk is under way all the while. -/
theorem carried_to_loop (hm : m.Sound) (hwalk : Walk limits level l.depth m₁ ds m) (hi : m.frame.instruction? = some i)
    (hop : i.op = .signal marker) (hchannel : m.thread.channel = none) (hlevel : outer.length = level)
    (h : CarriedTo limits marker (fun next => ∃ m', next = .running m' ∧ m'.callers = outer ∧ m'.frame.ip = some ip ∧
      m'.frame.iters.length = l.depth + 1) (step limits m)) :
    CarriedTo limits marker (fun next => ∃ m', next = .running m' ∧ Walk limits level l.depth m₁ ds m' ∧
      m'.callers.length = level ∧ m'.frame.ip = some ip) (step limits m) := by
  -- The verb itself is no instruction of the walk.
  have hgoes : ∀ m', step limits m = .running m' → m'.InWalk level l.depth → Walk limits level l.depth m₁ ds m' := by
    intro m' hstep hin
    have hnone : m.taken level l.depth m' = [] :=
      Machine.taken_eq_nil fun _ => Frame.taken_of_still hi (by simp [hop])
    have hgoes := hwalk.goesOn hstep hin
    rwa [hnone, List.append_nil] at hgoes
  refine (h.walk ?_ (sound_step hm) (clear_step hm (.inl hchannel)) hgoes).mono ?_
  · rintro m' ⟨rfl, -, hlength⟩
    exact inWalk_of_length hlevel hlength
  · rintro next ⟨m', hnext, hgoes', rfl, hip, -⟩
    exact ⟨m', hnext, hgoes', hlevel, hip⟩

end Far

theorem Placed.goesThrough (hl : l.Placed u shapes) (hm₁ : m₁.Sound)
    (hstart : ∃ f, m₁.frames[level]? = some f ∧ l.Reads u xs [] f) (hwalk : Walk limits level l.depth m₁ ds m) :
    l.GoesThrough limits level m₁ xs ds m := by
  obtain ⟨hm, hreads⟩ := hwalk.reads hm₁ hl hstart
  refine ⟨?_, fun hlevel hip => ?_, fun hlevel hip => (Reads.current hlevel hreads).comes_binds hl hm hip,
    fun kind ip hip hlevel hobeys => (Reads.current hlevel hreads).comes_resumes hwalk hlevel hip hobeys,
    fun i marker ip hi hop hchannel hip inner x around o outer hcallers hlevel hinner hx hfree hfind htargets =>
      carried_to_loop hm hwalk hi hop hchannel hlevel
        (carried_back hm hi hop hchannel hip hcallers hinner hx hfree hfind htargets),
    fun hlevel hip => ?_⟩
  · obtain ⟨f, -, h⟩ := hreads
    exact h.inOrder
  · refine ((Reads.current hlevel hreads).comes_next hl hm hip).mono fun m' _ h => ?_
    rwa [Machine.taken, if_pos hlevel]
  · have hstop := l.ip_stop
    obtain ⟨ip, hip', hplace⟩ := (Reads.current hlevel hreads).place
    obtain rfl := Option.some.inj (hip.symm.trans hip')
    obtain hnext | ⟨-, -, hlt⟩ | ⟨hall, -⟩ := hplace
    · omega
    · omega
    · exact hall

end Code.Foreach

/-- Loops over elements walk a snapshot. In every run, where a walk begins, there is a loop in the code with its iterable
    value on top of the stack. However the run goes on from there: as long as the walk is under way, the elements that were
    made current in it are the first ones of those that the value had when the walk began, in their order and each once. The
    next one becomes current where the loop goes on, the loop variable is bound to the current one where a round starts,
    `next` goes on and `redo` starts a round with the same elements behind it, be it in the frame of the loop or by a
    marker from a call, and the loop is over only when every element was current. -/
theorem foreach_walks_snapshot {limits : Limits} {t : Thread} {m m₁ : Machine} {i : Instruction} (ht : t.Arises)
    (hm : Reachable limits t m) (hi : m.frame.instruction? = some i) (hop : i.op = .iterInit)
    (hstep : step limits m = .running m₁) :
    ∃ (l : Foreach) (v : Value) (rest : List Value), l.StandsIn m.frame.unit.code ∧ m.frame.ip = some l.start ∧
      m.frame.iters.length = l.depth ∧ m.frame.stack = v :: rest ∧ ∀ ds m', Walk limits m.callers.length l.depth m₁ ds m' →
        l.GoesThrough limits m.callers.length m₁ (v.elementsIn m.thread.store) ds m' := by
  have hsound := hm.sound ht
  obtain ⟨l, shapes, hip, hstands, hl, hdepth⟩ := Foreach.exists_placed hsound hi hop
  obtain ⟨v, rest, hstack, hframe, hreads⟩ := reads_iterInit hi hop hip hdepth hstep
  exact ⟨l, v, rest, hstands, hip, hdepth, hstack, fun ds m' hwalk =>
    hl.goesThrough (hsound.running hstep) ⟨m₁.frame, hframe, hreads⟩ hwalk⟩

/-! ## A loop that grows what it walks -/

/-- The machine `n` steps after `m₁` with the elements that became current, if the walk is under way until then. -/
def Walk.after? (limits : Limits) (level depth : Nat) (m₁ : Machine) : Nat → Option (List Value × Machine)
  | 0 => some ([], m₁)
  | n + 1 =>
    match Walk.after? limits level depth m₁ n with
    | none => none
    | some (ds, m) =>
      match step limits m with
      | .done .. => none
      | .running m' =>
        match m'.frames[level]? with
        | none => none
        | some f => if depth < f.iters.length then some (ds ++ m.taken level depth m', m') else none

theorem Walk.of_after? {limits : Limits} {level depth n : Nat} {m₁ m : Machine} {ds : List Value}
    (h : Walk.after? limits level depth m₁ n = some (ds, m)) : Walk limits level depth m₁ ds m := by
  induction n generalizing ds m with
  | zero =>
    cases h
    exact .begins
  | succ n ih =>
    rw [after?] at h
    split at h
    · cases h
    · rename_i hbefore
      split at h
      · cases h
      · rename_i hstep
        split at h
        · cases h
        · rename_i hf
          split at h
          · cases h
            exact (ih hbefore).goesOn hstep ⟨_, hf, ‹_›⟩
          · cases h

/-- What runs `n` steps after the start and what runs one step later are one step apart. -/
theorem Next.step_of_after {limits : Limits} {n : Nat} {start : Next} {m m' : Machine} (h : start.after limits n = some m)
    (h' : start.after limits (n + 1) = some m') : step limits m = .running m' := by
  induction n generalizing start with
  | zero =>
    cases start with
    | done => cases h
    | running m₀ =>
      cases h
      rw [after] at h'
      cases hstep : step limits m with
      | done => rw [hstep] at h'; cases h'
      | running m₁ => rw [hstep] at h'; cases h'; rfl
  | succ n ih =>
    cases start with
    | done => cases h
    | running m₀ => exact ih h h'

namespace Growth

open Escape (place label callOf)

def name (text : String) : Expr := .ident text place

/-- A loop that pushes onto the array that it walks, and each round of which a marker from a call ends:
    `my a = [1, 2]; IN: foreach x (a) { push(a, x); sub { next IN }() }`. -/
def script : Module :=
  ⟨[.expr (.assign .declare (name "a") (.array [.int 1 place, .int 2 place] place) place),
    .foreachLoop (label "IN") ⟨"x", place⟩ (name "a")
      (.mk [.expr (.call (name "push") [name "a", name "x"] place), callOf [.verb .next (label "IN") place]] place) place],
    place⟩

def program : Program :=
  match compile "growth" script with
  | .ok p => p
  | .error _ => default

theorem compile_script : compile "growth" script = .ok program := rfl

def after? (n : Nat) : Option Machine := ((Thread.new 0).startProgram program).after Escape.limits n

def after (n : Nat) : Machine := (after? n).getD default

theorem after?_eq {n : Nat} (h : (after? n).isSome) : after? n = some (after n) := by
  obtain ⟨m, hm⟩ := Option.isSome_iff_exists.mp h
  rw [after, hm]
  rfl

theorem reachable_after {n : Nat} (h : (after? n).isSome) : Reachable Escape.limits (.new 0) (after n) :=
  .of_after (.program compile_script) (after?_eq h)

end Growth

/-- The loop that grows its array: after two rounds it is over, each of the two elements was current once, and the array
    has four of them. -/
theorem growth_walks_snapshot :
    ∃ (i : Instruction) (v : Value) (l : Foreach) (m : Machine), Reachable Escape.limits (.new 0) (Growth.after 6) ∧
      (Growth.after 6).frame.instruction? = some i ∧ i.op = .iterInit ∧
      step Escape.limits (Growth.after 6) = .running (Growth.after 7) ∧
      (v.elementsIn (Growth.after 6).thread.store).length = 2 ∧ (v.elementsIn m.thread.store).length = 4 ∧
      Walk Escape.limits 0 0 (Growth.after 7) (v.elementsIn (Growth.after 6).thread.store) m ∧
      l.GoesThrough Escape.limits 0 (Growth.after 7) (v.elementsIn (Growth.after 6).thread.store)
        (v.elementsIn (Growth.after 6).thread.store) m := by
  have hreach := Growth.reachable_after (n := 6) (by decide +kernel)
  have hstep : step Escape.limits (Growth.after 6) = .running (Growth.after 7) :=
    Next.step_of_after (Growth.after?_eq (by decide +kernel)) (Growth.after?_eq (by decide +kernel))
  have hname : (Growth.after 6).frame.instruction?.map (·.op.name) = some "iter_init" := by decide +kernel
  have hdepth : (Growth.after 6).frame.iters.length = 0 := by decide +kernel
  have hlevel : (Growth.after 6).callers.length = 0 := by decide +kernel
  have hbefore : (Growth.after 6).frame.stack.map (fun v => (v.elementsIn (Growth.after 6).thread.store).length) = [2] := by
    decide +kernel
  have hafter : (Walk.after? Escape.limits 0 0 (Growth.after 7) 27).map (fun p => (p.1.length,
      (Growth.after 6).frame.stack.map fun v => (v.elementsIn p.2.thread.store).length)) = some (2, [4]) := by
    decide +kernel
  obtain ⟨i, hi, hop⟩ := Option.map_eq_some_iff.mp hname
  replace hop : i.op = .iterInit := by
    cases h : i.op <;> simp [h, Operation.name] at hop ⊢
  obtain ⟨⟨ds, m⟩, hwalk, hlengths⟩ := Option.map_eq_some_iff.mp hafter
  obtain ⟨l, v, rest, -, -, hsame, hstack, hwalks⟩ := foreach_walks_snapshot (.new 0) hreach hi hop hstep
  rw [hstack, List.map_cons] at hbefore
  rw [hstack, List.map_cons, Prod.mk.injEq] at hlengths
  rw [hlevel, ← hsame, hdepth] at hwalks
  have hgoes := hwalks ds m (.of_after? hwalk)
  have hall : ds = v.elementsIn (Growth.after 6).thread.store :=
    hgoes.inOrder.eq_of_length (hlengths.1.trans (List.cons.inj hbefore).1.symm)
  subst hall
  exact ⟨i, v, l, m, hreach, hi, hop, hstep, (List.cons.inj hbefore).1, (List.cons.inj hlengths.2).1, .of_after? hwalk, hgoes⟩

end KestrelLang
