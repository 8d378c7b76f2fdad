import KestrelLang.Proofs.Value.Soundness

/-! # Where the code of values comes from

Operators and builtins make no subs: a sub comes from the unit that it was made of, and is only passed on. So
a property of all units that a store knows is kept by every operation.

* `Value.Stems`, `Store.Stems` — all subs have code, and that of units with a given property.
* `Store.Stems.define`, `Store.Stems.newArray`, … — changes of a store keep it so.
* `stems_binaryOp`, `stems_indexSet`, `stems_apply`, … — so do operators and builtins. -/

namespace KestrelLang

open KestrelLang.Code

variable {P : CodeUnit → Prop}

/-! ## Values -/

/-- A sub has code, and that of a unit with the property. -/
def Value.Stems (P : CodeUnit → Prop) : Value → Prop
  | .sub f => ∃ u, f.code = some u ∧ P u
  | _ => True

def ValuesStem (P : CodeUnit → Prop) (vs : List Value) : Prop := ∀ v ∈ vs, v.Stems P

namespace ValuesStem

variable {v : Value} {vs ws : List Value}

@[simp] theorem nil : ValuesStem P [] := by simp [ValuesStem]

@[simp] theorem cons : ValuesStem P (v :: vs) ↔ v.Stems P ∧ ValuesStem P vs := by
  simp [ValuesStem]

@[simp] theorem append : ValuesStem P (vs ++ ws) ↔ ValuesStem P vs ∧ ValuesStem P ws := by
  simp [ValuesStem, or_imp, forall_and]

theorem take (h : ValuesStem P vs) (n : Nat) : ValuesStem P (vs.take n) :=
  fun v hv => h v (List.mem_of_mem_take hv)

theorem drop (h : ValuesStem P vs) (n : Nat) : ValuesStem P (vs.drop n) :=
  fun v hv => h v (List.mem_of_mem_drop hv)

theorem reverse (h : ValuesStem P vs) : ValuesStem P vs.reverse :=
  fun v hv => h v (List.mem_reverse.mp hv)

end ValuesStem

/-! ## Stores -/

structure Store.Stems (P : CodeUnit → Prop) (s : Store) : Prop where
  bindings : ∀ id, ∀ b ∈ (s.env id).bindings, b.2.Stems P
  elements : ∀ ref, ValuesStem P (s.elements ref).toList

namespace Store

variable {s : Store} {id : Nat} {name : String} {v : Value}

theorem Stems.get? (hs : s.Stems P) (h : s.get? name id = some v) : v.Stems P := by
  simp only [Store.get?] at h
  split at h
  · obtain ⟨b, hb, rfl⟩ := mem_of_get? h
    exact hs.bindings _ b hb
  · cases h

theorem Stems.define (hs : s.Stems P) (hv : v.Stems P) (id : Nat) (name : String) :
    (s.define id name v).Stems P := by
  refine ⟨fun id' b hb => ?_, hs.elements⟩
  rw [env_define] at hb
  split at hb
  · obtain rfl | hb := mem_put hb
    · exact hv
    · exact hs.bindings _ b hb
  · exact hs.bindings _ b hb

theorem Stems.extend (hs : s.Stems P) (id : Nat) : (s.extend id).2.Stems P := by
  refine ⟨fun id' b hb => ?_, hs.elements⟩
  rw [env_extend] at hb
  split at hb
  · simp at hb
  · exact hs.bindings _ b hb

theorem Stems.newArray (hs : s.Stems P) {xs : Array Value} (hxs : ValuesStem P xs.toList) :
    (s.newArray xs).2.Stems P := by
  refine ⟨hs.bindings, fun ref => ?_⟩
  simp only [Store.newArray, Store.elements, Array.getElem?_push]
  split
  · exact hxs
  · exact hs.elements ref

theorem Stems.modifyArray (hs : s.Stems P) {f : Array Value → Array Value}
    (hf : ∀ xs : Array Value, ValuesStem P xs.toList → ValuesStem P (f xs).toList) (ref : Nat) :
    (s.modifyArray ref f).Stems P := by
  refine ⟨hs.bindings, fun ref' => ?_⟩
  have hold := hs.elements ref'
  simp only [Store.modifyArray, Store.elements, Array.getElem?_modify] at hold ⊢
  split
  · cases hget : s.arrays[ref']? with
    | none => simp
    | some xs =>
      rw [hget] at hold
      exact hf xs hold
  · exact hold

end Store

/-! ## Operators -/

section Operators

variable {s : Store}

theorem Literal.stems_toValue (l : Literal) : l.toValue.Stems P := by cases l <;> trivial

theorem Numeric.stems_toValue (n : Numeric) : n.toValue.Stems P := by cases n <;> trivial

theorem stems_arithmetic {op : ArithOp} {a b : Numeric} {v : Value} (h : arithmetic op a b = .ok v) : v.Stems P := by
  have hmap : ∀ {x : Except Trouble Numeric}, x.map Numeric.toValue = .ok v → v.Stems P := by
    intro x hx
    cases x with
    | error t => cases hx
    | ok n =>
      cases hx
      exact n.stems_toValue
  unfold arithmetic at h
  split at h <;> exact hmap h

theorem stems_rangeOf {low high : Int64} {xs : Array Value} (h : rangeOf low high = .ok xs) :
    ValuesStem P xs.toList := by
  unfold rangeOf at h
  repeat' split at h
  all_goals cases h
  · simp
  · intro v hv
    obtain ⟨i, rfl⟩ := Array.mem_ofFn.mp (Array.mem_toList_iff.mp hv)
    trivial

theorem stems_binaryOp (hs : s.Stems P) (op : BinaryOp) (left right : Value) :
    (binaryOp s op left right).2.Stems P ∧ ∀ v, (binaryOp s op left right).1 = .ok v → v.Stems P := by
  cases op <;> simp only [binaryOp]
  case range =>
    cases hrange : rangeOf (left.toNumeric s).toInt64 (right.toNumeric s).toInt64 with
    | error t => exact ⟨hs, fun v hv => by cases hv⟩
    | ok xs =>
      refine ⟨hs.newArray (stems_rangeOf hrange), fun v hv => ?_⟩
      cases hv
      trivial
  case add | sub | mul | div | mod => exact ⟨hs, fun v hv => stems_arithmetic hv⟩
  case and | or | other => exact ⟨hs, fun v hv => by cases hv⟩
  all_goals
    refine ⟨hs, fun v hv => ?_⟩
    cases hv
    trivial

theorem stems_unaryOp {op : UnaryOp} {v w : Value} (h : unaryOp s op v = .ok w) : w.Stems P := by
  unfold unaryOp at h
  repeat' split at h
  all_goals cases h <;> trivial

theorem stems_indexGet (hs : s.Stems P) {object index v : Value} (h : indexGet s object index = .ok v) :
    v.Stems P := by
  unfold indexGet at h
  dsimp only at h
  split at h
  · rename_i ref
    split at h
    · cases h
      rename_i r _
      cases hget : (s.elements ref)[r.toInt.toNat]? with
      | none => trivial
      | some w => exact hs.elements ref w (Array.mem_toList_iff.mpr (Array.mem_of_getElem? hget))
    · cases h
      trivial
  · repeat' split at h
    all_goals cases h; trivial
  · cases h

theorem stems_putElement {r : Nat} {v : Value} (hv : v.Stems P) (xs : Array Value) (hxs : ValuesStem P xs.toList) :
    ValuesStem P (putElement r v xs).toList := by
  unfold putElement
  split
  · intro w hw
    rw [Array.toList_setIfInBounds] at hw
    obtain hw | rfl := List.mem_or_eq_of_mem_set hw
    · exact hxs w hw
    · exact hv
  · simp only [Array.toList_push, Array.toList_append, ValuesStem.append, ValuesStem.cons, ValuesStem.nil, and_true]
    refine ⟨⟨hxs, fun w hw => ?_⟩, hv⟩
    obtain ⟨-, rfl⟩ := by simpa using hw
    trivial

theorem stems_indexSet (hs : s.Stems P) {v : Value} (hv : v.Stems P) (object index : Value) :
    (indexSet s object index v).2.Stems P := by
  unfold indexSet
  repeat' split
  all_goals first
    | exact hs
    | exact hs.modifyArray (stems_putElement hv) _

theorem stems_apply (hs : s.Stems P) {args : List Value} (hargs : ValuesStem P args) (b : Builtin)
    (limit : Option Nat) (out : String) :
    (b.apply limit s out args).store.Stems P ∧ ∀ v, (b.apply limit s out args).result = .ok v → v.Stems P := by
  have hwrite : ∀ text, (writeText limit s out text).store.Stems P ∧
      ∀ v, (writeText limit s out text).result = .ok v → v.Stems P := by
    intro text
    unfold writeText
    split
    · refine ⟨hs, fun v hv => ?_⟩
      cases hv
      trivial
    · exact ⟨hs, fun v hv => by cases hv⟩
  cases b <;> simp only [Builtin.apply]
  case print | say => exact hwrite _
  case push =>
    unfold pushOnto
    split
    · exact ⟨hs, fun v hv => by cases hv⟩
    · refine ⟨hs.modifyArray (fun xs hxs => ?_) _, fun v hv => ?_⟩
      · simp only [Array.toList_append, ValuesStem.append]
        exact ⟨hxs, (ValuesStem.cons.mp hargs).2⟩
      · cases hv
        trivial
    · exact ⟨hs, fun v hv => by cases hv⟩
  all_goals
    refine ⟨hs, fun v hv => ?_⟩
    cases hv
    trivial

end Operators

end KestrelLang
