import KestrelLang.Value.Store

/-! # Nesting of environments

* `Store.Nested` — the environment around one is older and one less deep.
* `Store.Grows` — a store grows: old environments keep their places.
* `Store.depth_unwind`, `Store.unwind_unwind` — how far going outward gets.
* `Store.path` — the environments from one outward; `Store.drop_path` says that going outward drops the
  inner ones. -/

namespace KestrelLang.Store

variable {s s' : Store} {id d d' : Nat}

/-- Environments are nested: the environment around one is older and one less deep. -/
structure Nested (s : Store) : Prop where
  nonempty : 0 < s.envs.size
  inward : ∀ {id p}, s.parent id = some p → p < id ∧ s.depth id = s.depth p + 1
  outermost : ∀ {id}, s.parent id = none → s.depth id = 0

/-! ## Going outward -/

theorem unwind_of_le (h : s.depth id ≤ d) : s.unwind d id = id := by
  rw [unwind, if_pos h]

theorem Nested.unwind_parent (hs : s.Nested) (h : d < s.depth id) :
    ∃ p, s.parent id = some p ∧ p < id ∧ s.depth id = s.depth p + 1 ∧ s.unwind d id = s.unwind d p := by
  cases hp : s.parent id with
  | none =>
    rw [hs.outermost hp] at h
    exact absurd h (Nat.not_lt_zero _)
  | some p =>
    obtain ⟨hlt, hdepth⟩ := hs.inward hp
    refine ⟨p, rfl, hlt, hdepth, ?_⟩
    rw [unwind, if_neg (Nat.not_le.mpr h)]
    simp only [hp, hlt, if_true]

theorem Nested.depth_unwind (hs : s.Nested) (h : d ≤ s.depth id) : s.depth (s.unwind d id) = d := by
  -- The environment around one is older, so the induction goes down the ages of environments.
  induction id using Nat.strongRecOn with
  | ind id ih =>
    obtain heq | hlt := Nat.eq_or_lt_of_le h
    · rw [unwind_of_le (Nat.le_of_eq heq.symm), heq]
    · obtain ⟨p, -, hp, hdepth, hunwind⟩ := hs.unwind_parent hlt
      rw [hunwind]
      exact ih p hp (by omega)

theorem unwind_le (s : Store) (d id : Nat) : s.unwind d id ≤ id := by
  induction id using Nat.strongRecOn with
  | ind id ih =>
    rw [unwind]
    split
    · exact Nat.le_refl _
    · split
      · exact Nat.le_refl _
      · rename_i p _
        split
        · exact Nat.le_trans (ih p ‹_›) (Nat.le_of_lt ‹_›)
        · exact Nat.le_refl _

theorem unwind_unwind (s : Store) (h : d ≤ d') (id : Nat) :
    s.unwind d (s.unwind d' id) = s.unwind d id := by
  induction id using Nat.strongRecOn with
  | ind id ih =>
    by_cases hle : s.depth id ≤ d'
    · rw [unwind_of_le hle]
    have hdeep : ¬ s.depth id ≤ d := fun hd => hle (Nat.le_trans hd h)
    cases hp : s.parent id with
    | none =>
      have hstop : s.unwind d' id = id := by simp [unwind, hle, hp]
      rw [hstop]
    | some p =>
      -- `unwind` stops where the environment around is not older; no nested store has such a place, but
      -- the fact holds without that.
      by_cases hlt : p < id
      · have hfirst : s.unwind d' id = s.unwind d' p := by rw [unwind]; simp [hle, hp, hlt]
        have hsecond : s.unwind d id = s.unwind d p := by rw [unwind]; simp [hdeep, hp, hlt]
        rw [hfirst, hsecond]
        exact ih p hlt
      · have hstop : s.unwind d' id = id := by simp [unwind, hle, hp, hlt]
        rw [hstop]

/-! ## Growing -/

/-- A store grows: old environments keep their places. -/
structure Grows (s s' : Store) : Prop where
  size : s.envs.size ≤ s'.envs.size
  parent : ∀ {id}, id < s.envs.size → s'.parent id = s.parent id
  depth : ∀ {id}, id < s.envs.size → s'.depth id = s.depth id

namespace Grows

theorem refl (s : Store) : s.Grows s := ⟨Nat.le_refl _, fun _ => rfl, fun _ => rfl⟩

theorem trans {s₁ s₂ s₃ : Store} (h₁ : s₁.Grows s₂) (h₂ : s₂.Grows s₃) : s₁.Grows s₃ where
  size := Nat.le_trans h₁.size h₂.size
  parent hid := (h₂.parent (Nat.lt_of_lt_of_le hid h₁.size)).trans (h₁.parent hid)
  depth hid := (h₂.depth (Nat.lt_of_lt_of_le hid h₁.size)).trans (h₁.depth hid)

end Grows

/-- Stores with the same environments are alike in every respect but their arrays. -/
theorem Grows.of_envs_eq (h : s'.envs = s.envs) : s.Grows s' := by
  refine ⟨Nat.le_of_eq (by rw [h]), fun _ => ?_, fun _ => ?_⟩ <;>
    simp only [Store.parent, Store.depth, env, h]

theorem Nested.of_envs_eq (hs : s.Nested) (h : s'.envs = s.envs) : s'.Nested := by
  have hparent : ∀ id, s'.parent id = s.parent id := fun id => by simp only [parent, env, h]
  have hdepth : ∀ id, s'.depth id = s.depth id := fun id => by simp only [depth, env, h]
  refine ⟨h ▸ hs.nonempty, fun hp => ?_, fun hp => ?_⟩
  · rw [hdepth, hdepth]
    exact hs.inward (hparent _ ▸ hp)
  · rw [hdepth]
    exact hs.outermost (hparent _ ▸ hp)

@[simp] theorem size_define (s : Store) (id : Nat) (name : String) (v : Value) :
    (s.define id name v).envs.size = s.envs.size := by
  simp [define]

theorem env_define (s : Store) (id : Nat) (name : String) (v : Value) (id' : Nat) :
    (s.define id name v).env id' = if id = id' ∧ id' < s.envs.size then
      { s.env id' with bindings := (s.env id').bindings.put name v } else s.env id' := by
  simp only [env, define, Array.getElem?_modify]
  by_cases heq : id = id'
  · subst heq
    by_cases hlt : id < s.envs.size
    · simp [hlt]
    · simp [hlt]
  · simp [heq]

@[simp] theorem parent_define (s : Store) (id : Nat) (name : String) (v : Value) (id' : Nat) :
    (s.define id name v).parent id' = s.parent id' := by
  simp only [parent, env_define]
  split <;> rfl

@[simp] theorem depth_define (s : Store) (id : Nat) (name : String) (v : Value) (id' : Nat) :
    (s.define id name v).depth id' = s.depth id' := by
  simp only [depth, env_define]
  split <;> rfl

theorem Grows.define (s : Store) (id : Nat) (name : String) (v : Value) :
    s.Grows (s.define id name v) :=
  ⟨by simp, by simp, by simp⟩

theorem Nested.define (hs : s.Nested) (id : Nat) (name : String) (v : Value) :
    (s.define id name v).Nested :=
  ⟨by simpa using hs.nonempty, fun hp => by simpa using hs.inward (by simpa using hp),
    fun hp => by simpa using hs.outermost (by simpa using hp)⟩

theorem env_extend (s : Store) (id id' : Nat) :
    (s.extend id).2.env id' =
      if id' = s.envs.size then ⟨[], some id, s.depth id + 1⟩ else s.env id' := by
  simp only [extend, env, Array.getElem?_push]
  split <;> rfl

@[simp] theorem size_extend (s : Store) (id : Nat) :
    (s.extend id).2.envs.size = s.envs.size + 1 := by
  simp [extend]

theorem Grows.extend (s : Store) (id : Nat) : s.Grows (s.extend id).2 := by
  refine ⟨by simp, fun hid => ?_, fun hid => ?_⟩ <;>
    simp only [Store.parent, Store.depth, env_extend, Nat.ne_of_lt hid, if_false]

theorem depth_extend (s : Store) (id : Nat) :
    (s.extend id).2.depth (s.extend id).1 = s.depth id + 1 := by
  have hnew : (s.extend id).1 = s.envs.size := rfl
  simp only [Store.depth, env_extend, hnew, if_true]

theorem parent_extend (s : Store) (id : Nat) : (s.extend id).2.parent (s.extend id).1 = some id := by
  have hnew : (s.extend id).1 = s.envs.size := rfl
  simp only [Store.parent, env_extend, hnew, if_true]

theorem Nested.extend (hs : s.Nested) (hid : id < s.envs.size) : (s.extend id).2.Nested := by
  have hgrows := Grows.extend s id
  refine ⟨by simp, fun {id' p} hp => ?_, fun {id'} hp => ?_⟩
  · by_cases hnew : id' = s.envs.size
    · subst hnew
      obtain rfl : id = p := by simpa [Store.parent, env_extend] using hp
      -- The new environment stands inside `id`, which was there before.
      refine ⟨hid, ?_⟩
      rw [hgrows.depth hid]
      exact depth_extend s id
    · have hp' : s.parent id' = some p := by simpa [Store.parent, env_extend, hnew] using hp
      obtain ⟨hlt, hdepth⟩ := hs.inward hp'
      refine ⟨hlt, ?_⟩
      have hold : (s.extend id).2.depth id' = s.depth id' := by
        simp [Store.depth, env_extend, hnew]
      by_cases hpnew : p = s.envs.size
      · -- A number beyond the store has no environment around it.
        have hbeyond : s.parent id' = none := by
          have : s.envs.size ≤ id' := by omega
          simp [Store.parent, Store.env, Array.getElem?_eq_none this]
        rw [hbeyond] at hp'
        cases hp'
      · have hpold : (s.extend id).2.depth p = s.depth p := by
          simp [Store.depth, env_extend, hpnew]
        rw [hold, hpold, hdepth]
  · by_cases hnew : id' = s.envs.size
    · subst hnew
      simp [Store.parent, env_extend] at hp
    · have hp' : s.parent id' = none := by simpa [Store.parent, env_extend, hnew] using hp
      simpa [Store.depth, env_extend, hnew] using hs.outermost hp'

/-! ## Paths -/

def path (s : Store) : (n : Nat) → (id : Nat) → List Nat
  | 0, id => [id]
  | n + 1, id =>
    id :: match s.parent id with
      | some p => path s n p
      | none => []

theorem head_path (s : Store) (n id : Nat) : (s.path n id).head? = some id := by
  cases n <;> simp [path]

theorem Nested.length_path (hs : s.Nested) {n : Nat} (h : n ≤ s.depth id) :
    (s.path n id).length = n + 1 := by
  induction n generalizing id with
  | zero => simp [path]
  | succ n ih =>
    obtain ⟨p, hp, -, hdepth, -⟩ := hs.unwind_parent (show 0 < s.depth id by omega)
    have hlength : (s.path n p).length = n + 1 := ih (by omega)
    simp [path, hp, hlength]

theorem Nested.drop_path (hs : s.Nested) {n k : Nat} (hk : k ≤ n) (hn : n ≤ s.depth id) :
    (s.path n id).drop k = s.path (n - k) (s.unwind (s.depth id - k) id) := by
  induction k generalizing n id with
  | zero => simp [unwind_of_le]
  | succ k ih =>
    obtain ⟨n, rfl⟩ : ∃ n', n = n' + 1 := ⟨n - 1, by omega⟩
    obtain ⟨p, hp, -, hdepth, hunwind⟩ :=
      hs.unwind_parent (show s.depth id - (k + 1) < s.depth id by omega)
    have hdepth' : s.depth id - (k + 1) = s.depth p - k := by omega
    simp only [path, hp, List.drop_succ_cons, Nat.add_sub_add_right]
    rw [hunwind, hdepth']
    exact ih (by omega) (by omega)

theorem Grows.path (h : s.Grows s') (hs : s.Nested) {n : Nat} (hid : id < s.envs.size) :
    s'.path n id = s.path n id := by
  induction n generalizing id with
  | zero => rfl
  | succ n ih =>
    simp only [Store.path, h.parent hid]
    cases hp : s.parent id with
    | none => rfl
    | some p => simp only [ih (Nat.lt_trans (hs.inward hp).1 hid)]

end KestrelLang.Store
