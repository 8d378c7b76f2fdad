import KestrelLang.Proofs.Machine.Above

/-! # What comes after what

* `Next.machine` — the machine of a state.
* `Machine.Precedes` — the second machine was started as the first one, and its store is grown out of the
  first one's.
* `precedes_step`, `Leads.precedes` — a machine precedes whatever it comes to. -/

namespace KestrelLang

open KestrelLang.Code

def Next.machine : Next → Machine
  | .running m => m
  | .done m _ => m

/-- The second machine was started as the first one, and its store is grown out of the first one's. -/
structure Machine.Precedes (m n : Machine) : Prop where
  base : n.base = m.base
  grows : m.thread.store.Grows n.thread.store

namespace Machine

variable {m n : Machine} {limits : Limits} {callers : List Suspended} {next : Next}

theorem Precedes.refl (m : Machine) : m.Precedes m := ⟨rfl, .refl _⟩

theorem Precedes.trans {k : Machine} (h : m.Precedes n) (h' : n.Precedes k) : m.Precedes k :=
  ⟨h'.base.trans h.base, h.grows.trans h'.grows⟩

theorem precedes_raiseTrouble (m : Machine) (t : Trouble) : m.Precedes (m.raiseTrouble callers t).machine := by
  cases t <;> exact .refl m

theorem precedes_deliver (m : Machine) (v : Value) : m.Precedes (m.deliver callers v).machine := by
  cases callers <;> exact ⟨rfl, .refl _⟩

theorem Entered.precedes {callee : Value} {args : List Value} (h : m.Entered limits callers args callee next) :
    m.Precedes next.machine := by
  have heffect : ∀ b : Builtin, m.Precedes (m.withEffect (b.apply limits.outLimit m.thread.store m.out args)) :=
    fun b => ⟨rfl, grows_apply ..⟩
  cases h with
  | starts => exact ⟨rfl, (Store.Grows.extend ..).trans (grows_bindParams ..)⟩
  | noCode | arity | notCallable => exact precedes_raiseTrouble ..
  | hollow => exact .refl m
  | delivers => exact (heffect _).trans (precedes_deliver ..)
  | fails => exact (heffect _).trans (precedes_raiseTrouble ..)

theorem Called.precedes {callee : Value} {args : List Value} (h : m.Called limits callers callee args next) :
    m.Precedes next.machine := by
  have hdeeper : m.Precedes m.oneDeeper := ⟨rfl, .refl _⟩
  cases h with
  | refused => exact hdeeper.trans (precedes_raiseTrouble ..)
  | admitted _ hentered => exact hdeeper.trans hentered.precedes

theorem Left.precedes {v : Value} (h : m.Left limits v next) : m.Precedes next.machine := by
  cases h with
  | ended | astray => exact .refl m
  | replaced _ _ _ hentered => exact ⟨hentered.precedes.base, hentered.precedes.grows⟩
  | delivers => exact precedes_deliver ..

theorem Executed.precedes {i : Instruction} (h : m.Executed limits i next) : m.Precedes next.machine := by
  cases h with
  | within hgrows => exact ⟨rfl, hgrows⟩
  | @fails _ t _ hgrows => cases t <;> exact ⟨rfl, hgrows⟩
  | unbound | aborts | collides | occupied => exact .refl m
  | calls _ _ hcalled => exact hcalled.precedes
  | returns _ _ hleft => exact hleft.precedes
  | signals _ _ hleft | parks _ _ _ hleft => exact ⟨hleft.precedes.base, hleft.precedes.grows⟩
  | dispatches => exact ⟨rfl, .refl _⟩

end Machine

theorem precedes_step (limits : Limits) (m : Machine) : m.Precedes (step limits m).machine := by
  have h := stepped limits m
  generalize step limits m = next at h ⊢
  cases h with
  | ends => exact (Machine.left ..).precedes
  | strays | stops => exact ⟨rfl, .refl _⟩
  | @runs i =>
    have hexecuted := (Machine.executed limits (m.ticked limits.interval) i).precedes
    exact ⟨hexecuted.base, hexecuted.grows⟩

theorem Leads.precedes {limits : Limits} {a b : Next} (h : Leads limits a b) :
    a.machine.Precedes b.machine := by
  induction h with
  | refl => exact .refl _
  | step _ ih => exact (precedes_step limits _).trans ih

theorem Reaches.precedes {limits : Limits} {m m' : Machine} (h : Reaches limits m m') : m.Precedes m' := by
  induction h with
  | refl => exact .refl _
  | @step m₁ m₂ m₃ hstep _ ih =>
    have hfirst := precedes_step limits m₁
    rw [hstep] at hfirst
    exact hfirst.trans ih

end KestrelLang
