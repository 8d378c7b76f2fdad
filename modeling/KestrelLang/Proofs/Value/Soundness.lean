import KestrelLang.Machine.Builtins
import KestrelLang.Proofs.Code.Landing
import KestrelLang.Proofs.Value.Nesting

/-! # Sound values and stores

* `Value.Sound` — a sub's environment exists, and its code was lowered.
* `Store.Sound` — environments are nested, and all values in the store are sound.
* `Store.Onward` — a sound store that grew out of another one.
* `onward_binaryOp`, `onward_indexSet`, `onward_apply`, … — operations give sound values and stores. -/

namespace KestrelLang

open KestrelLang.Code

/-! ## Values -/

/-- What a value refers to is there: a sub's environment exists, and its code was lowered. -/
def Value.Sound (s : Store) : Value → Prop
  | .sub f => f.closure < s.envs.size ∧ ∀ u, f.code = some u → Lowered u
  | _ => True

theorem Value.Sound.grow {s s' : Store} {v : Value} (h : v.Sound s) (hs : s.Grows s') : v.Sound s' := by
  cases v with
  | sub f => exact ⟨Nat.lt_of_lt_of_le h.1 hs.size, h.2⟩
  | _ => trivial

def ValuesSound (s : Store) (vs : List Value) : Prop := ∀ v ∈ vs, v.Sound s

namespace ValuesSound

variable {s s' : Store} {v : Value} {vs ws : List Value}

theorem grow (h : ValuesSound s vs) (hs : s.Grows s') : ValuesSound s' vs :=
  fun v hv => (h v hv).grow hs

@[simp] theorem nil : ValuesSound s [] := by simp [ValuesSound]

@[simp] theorem cons : ValuesSound s (v :: vs) ↔ v.Sound s ∧ ValuesSound s vs := by
  simp [ValuesSound]

@[simp] theorem append : ValuesSound s (vs ++ ws) ↔ ValuesSound s vs ∧ ValuesSound s ws := by
  simp [ValuesSound, or_imp, forall_and]

theorem take (h : ValuesSound s vs) (n : Nat) : ValuesSound s (vs.take n) :=
  fun v hv => h v (List.mem_of_mem_take hv)

theorem drop (h : ValuesSound s vs) (n : Nat) : ValuesSound s (vs.drop n) :=
  fun v hv => h v (List.mem_of_mem_drop hv)

theorem reverse (h : ValuesSound s vs) : ValuesSound s vs.reverse :=
  fun v hv => h v (List.mem_reverse.mp hv)

end ValuesSound

/-! ## Stores -/

/-- Environments are nested, and all bindings and elements are sound. -/
structure Store.Sound (s : Store) : Prop where
  nested : s.Nested
  bindings : ∀ id, ∀ b ∈ (s.env id).bindings, b.2.Sound s
  elements : ∀ ref, ValuesSound s (s.elements ref).toList

/-- The store `s'` is sound and grew out of `s`. -/
structure Store.Onward (s s' : Store) : Prop where
  sound : s'.Sound
  grows : s.Grows s'

namespace Store

variable {s s' : Store} {id : Nat} {name : String} {v : Value}

theorem Onward.refl (hs : s.Sound) : s.Onward s := ⟨hs, .refl s⟩

theorem Onward.trans {s₁ s₂ s₃ : Store} (h₁ : s₁.Onward s₂) (h₂ : s₂.Onward s₃) : s₁.Onward s₃ :=
  ⟨h₂.sound, h₁.grows.trans h₂.grows⟩

theorem mem_put {b : String × Value} {bs : Bindings} (h : b ∈ bs.put name v) :
    b = (name, v) ∨ b ∈ bs := by
  induction bs with
  | nil => simpa [Bindings.put] using h
  | cons entry rest ih =>
    simp only [Bindings.put] at h
    split at h
    · obtain rfl | h := List.mem_cons.mp h
      · exact .inl rfl
      · exact .inr (List.mem_cons_of_mem _ h)
    · obtain rfl | h := List.mem_cons.mp h
      · exact .inr List.mem_cons_self
      · exact (ih h).imp_right (List.mem_cons_of_mem _)

theorem mem_of_get? {bs : Bindings} (h : bs.get? name = some v) : ∃ b ∈ bs, b.2 = v := by
  induction bs with
  | nil => simp [Bindings.get?] at h
  | cons entry rest ih =>
    simp only [Bindings.get?] at h
    split at h
    · exact ⟨entry, List.mem_cons_self, Option.some.inj h⟩
    · obtain ⟨b, hb, hv⟩ := ih h
      exact ⟨b, List.mem_cons_of_mem _ hb, hv⟩

theorem Sound.get? (hs : s.Sound) (h : s.get? name id = some v) : v.Sound s := by
  simp only [Store.get?] at h
  split at h
  · obtain ⟨b, hb, rfl⟩ := mem_of_get? h
    exact hs.bindings _ b hb
  · cases h

theorem onward_define (hs : s.Sound) (hv : v.Sound s) (id : Nat) (name : String) :
    s.Onward (s.define id name v) := by
  have hgrows := Grows.define s id name v
  refine ⟨⟨hs.nested.define id name v, fun id' b hb => ?_, fun ref => ?_⟩, hgrows⟩
  · rw [env_define] at hb
    split at hb
    · obtain rfl | hb := mem_put hb
      · exact hv.grow hgrows
      · exact (hs.bindings _ b hb).grow hgrows
    · exact (hs.bindings _ b hb).grow hgrows
  · exact (hs.elements ref).grow hgrows

theorem onward_extend (hs : s.Sound) (hid : id < s.envs.size) : s.Onward (s.extend id).2 := by
  have hgrows := Grows.extend s id
  refine ⟨⟨hs.nested.extend hid, fun id' b hb => ?_, fun ref => ?_⟩, hgrows⟩
  · rw [env_extend] at hb
    split at hb
    · simp at hb
    · exact (hs.bindings _ b hb).grow hgrows
  · exact (hs.elements ref).grow hgrows

/-- Changing arrays only keeps a store sound if the new elements are. -/
theorem onward_of_envs_eq (hs : s.Sound) (henvs : s'.envs = s.envs)
    (helements : ∀ ref, ValuesSound s (s'.elements ref).toList) : s.Onward s' := by
  have hgrows := Grows.of_envs_eq henvs
  refine ⟨⟨hs.nested.of_envs_eq henvs, fun id b hb => ?_, fun ref => ?_⟩, hgrows⟩
  · rw [Store.env, henvs] at hb
    exact (hs.bindings id b hb).grow hgrows
  · exact (helements ref).grow hgrows

theorem onward_newArray (hs : s.Sound) {xs : Array Value} (hxs : ValuesSound s xs.toList) :
    s.Onward (s.newArray xs).2 := by
  refine onward_of_envs_eq hs rfl fun ref => ?_
  simp only [newArray, Store.elements, Array.getElem?_push]
  split
  · exact hxs
  · exact hs.elements ref

theorem onward_modifyArray (hs : s.Sound) {f : Array Value → Array Value}
    (hf : ∀ xs : Array Value, ValuesSound s xs.toList → ValuesSound s (f xs).toList) (ref : Nat) :
    s.Onward (s.modifyArray ref f) := by
  refine onward_of_envs_eq hs rfl fun ref' => ?_
  have hold := hs.elements ref'
  simp only [modifyArray, Store.elements, Array.getElem?_modify] at hold ⊢
  split
  · cases hget : s.arrays[ref']? with
    | none => simp
    | some xs =>
      rw [hget] at hold
      exact hf xs hold
  · exact hold

end Store

/-! ## Operators -/

section Operators

variable {s : Store}

theorem Literal.sound_toValue (l : Literal) : l.toValue.Sound s := by
  cases l <;> trivial

theorem Numeric.sound_toValue (n : Numeric) : n.toValue.Sound s := by
  cases n <;> trivial

theorem sound_arithmetic {op : ArithOp} {a b : Numeric} {v : Value} (h : arithmetic op a b = .ok v) :
    v.Sound s := by
  have hmap : ∀ {x : Except Trouble Numeric}, x.map Numeric.toValue = .ok v → v.Sound s := by
    intro x hx
    cases x with
    | error t => cases hx
    | ok n =>
      cases hx
      exact n.sound_toValue
  unfold arithmetic at h
  split at h <;> exact hmap h

theorem valuesSound_rangeOf {low high : Int64} {xs : Array Value} (h : rangeOf low high = .ok xs) :
    ValuesSound s xs.toList := by
  unfold rangeOf at h
  split at h
  · cases h
    simp
  · split at h
    · cases h
    · split at h
      · cases h
      · cases h
        intro v hv
        obtain ⟨i, rfl⟩ := Array.mem_ofFn.mp (Array.mem_toList_iff.mp hv)
        trivial

theorem onward_binaryOp (hs : s.Sound) (op : BinaryOp) (left right : Value) :
    s.Onward (binaryOp s op left right).2 ∧
      ∀ v, (binaryOp s op left right).1 = .ok v → v.Sound (binaryOp s op left right).2 := by
  have hrefl := Store.Onward.refl hs
  cases op <;> simp only [binaryOp]
  case range =>
    cases hrange : rangeOf (left.toNumeric s).toInt64 (right.toNumeric s).toInt64 with
    | error t => exact ⟨hrefl, nofun⟩
    | ok xs =>
      refine ⟨Store.onward_newArray hs (valuesSound_rangeOf hrange), fun v hv => ?_⟩
      cases hv
      trivial
  case add | sub | mul | div | mod => exact ⟨hrefl, fun v hv => sound_arithmetic hv⟩
  case and | or | other => exact ⟨hrefl, nofun⟩
  all_goals
    refine ⟨hrefl, fun v hv => ?_⟩
    cases hv
    trivial

theorem sound_unaryOp {op : UnaryOp} {v w : Value} (h : unaryOp s op v = .ok w) : w.Sound s := by
  unfold unaryOp at h
  split at h
  · cases h
    trivial
  · split at h <;> cases h <;> trivial
  · cases h

theorem sound_indexGet (hs : s.Sound) {object index v : Value} (h : indexGet s object index = .ok v) :
    v.Sound s := by
  unfold indexGet at h
  dsimp only at h
  split at h
  · rename_i ref
    split at h
    · cases h
      rename_i r _
      cases hget : (s.elements ref)[r.toInt.toNat]? with
      | none => trivial
      | some w => exact hs.elements ref w (Array.mem_toList_iff.mpr (Array.mem_of_getElem? hget))
    · cases h
      trivial
  · split at h
    · split at h <;> cases h <;> trivial
    · cases h
      trivial
  · cases h

theorem valuesSound_putElement {r : Nat} {v : Value} (hv : v.Sound s) (xs : Array Value)
    (hxs : ValuesSound s xs.toList) : ValuesSound s (putElement r v xs).toList := by
  unfold putElement
  split
  · intro w hw
    rw [Array.toList_setIfInBounds] at hw
    obtain hw | rfl := List.mem_or_eq_of_mem_set hw
    · exact hxs w hw
    · exact hv
  · simp only [Array.toList_push, Array.toList_append, ValuesSound.append, ValuesSound.cons,
      ValuesSound.nil, and_true]
    refine ⟨⟨hxs, fun w hw => ?_⟩, hv⟩
    obtain ⟨-, rfl⟩ := by simpa using hw
    trivial

theorem onward_indexSet (hs : s.Sound) {v : Value} (hv : v.Sound s) (object index : Value) :
    s.Onward (indexSet s object index v).2 := by
  have hrefl := Store.Onward.refl hs
  unfold indexSet
  split
  · split
    · exact hrefl
    · split
      · exact hrefl
      · exact Store.onward_modifyArray hs (valuesSound_putElement hv) _
  · exact hrefl

theorem onward_apply (hs : s.Sound) {args : List Value} (hargs : ValuesSound s args) (b : Builtin)
    (limit : Option Nat) (out : String) :
    s.Onward (b.apply limit s out args).store ∧
      ∀ v, (b.apply limit s out args).result = .ok v → v.Sound (b.apply limit s out args).store := by
  have hrefl := Store.Onward.refl hs
  have hwrite : ∀ text, s.Onward (writeText limit s out text).store ∧
      ∀ v, (writeText limit s out text).result = .ok v →
        v.Sound (writeText limit s out text).store := by
    intro text
    unfold writeText
    split
    · refine ⟨hrefl, fun v hv => ?_⟩
      cases hv
      trivial
    · exact ⟨hrefl, nofun⟩
  cases b <;> simp only [Builtin.apply]
  case print | say => exact hwrite _
  case push =>
    unfold pushOnto
    split
    · exact ⟨hrefl, nofun⟩
    · refine ⟨Store.onward_modifyArray hs (fun xs hxs => ?_) _, fun v hv => ?_⟩
      · simp only [Array.toList_append, ValuesSound.append]
        exact ⟨hxs, (ValuesSound.cons.mp hargs).2⟩
      · cases hv
        trivial
    · exact ⟨hrefl, nofun⟩
  all_goals
    refine ⟨hrefl, fun v hv => ?_⟩
    cases hv
    trivial

end Operators

end KestrelLang
