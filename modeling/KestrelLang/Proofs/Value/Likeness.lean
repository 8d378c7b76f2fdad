import Mathlib.Data.List.Forall2
import KestrelLang.Proofs.Value.Nesting

/-! # Stores that are alike

* `Pairing` — which environments and arrays of one store correspond to which of another.
* `Value.Alike`, `Store.Alike` — values and stores that differ in nothing but the numbers of their
  environments and arrays, as far as the pairing reaches.
* `alike_get?`, `alike_unwind`, `Store.Alike.define`, `Store.Alike.extend` — operations on environments.
* `Store.Alike.newArray`, `Store.Alike.modifyArray` — operations on arrays. -/

namespace KestrelLang

/-- Two options are related if both are empty or their values are related. -/
theorem option_rel_iff {α β : Type} {R : α → β → Prop} {x : Option α} {y : Option β} :
    Option.Rel R x y ↔ x = none ∧ y = none ∨ ∃ a b, x = some a ∧ y = some b ∧ R a b := by
  constructor
  · rintro (hab | _)
    · exact .inr ⟨_, _, rfl, rfl, hab⟩
    · exact .inl ⟨rfl, rfl⟩
  · rintro (⟨rfl, rfl⟩ | ⟨a, b, rfl, rfl, hab⟩)
    · exact .none
    · exact .some hab

/-! ## Values -/

/-- Which environments and arrays of one store correspond to which of another, and whether the value
    that announces a tail call may turn up. -/
structure Pairing where
  envs : Nat → Nat → Prop
  arrays : Nat → Nat → Prop
  sentinel : Prop

/-- A pairing grows: it keeps its pairs, and has the same opinion about the sentinel. -/
structure Pairing.Grows (r r' : Pairing) : Prop where
  envs : ∀ {i j}, r.envs i j → r'.envs i j
  arrays : ∀ {a b}, r.arrays a b → r'.arrays a b
  sentinel : r.sentinel ↔ r'.sentinel

namespace Pairing

theorem Grows.refl (r : Pairing) : r.Grows r := ⟨id, id, .rfl⟩

theorem Grows.trans {r₁ r₂ r₃ : Pairing} (h₁ : r₁.Grows r₂) (h₂ : r₂.Grows r₃) : r₁.Grows r₃ :=
  ⟨h₂.envs ∘ h₁.envs, h₂.arrays ∘ h₁.arrays, h₁.sentinel.trans h₂.sentinel⟩

def addEnv (r : Pairing) (i j : Nat) : Pairing :=
  { r with envs := fun i' j' => r.envs i' j' ∨ i' = i ∧ j' = j }

def addArray (r : Pairing) (a b : Nat) : Pairing :=
  { r with arrays := fun a' b' => r.arrays a' b' ∨ a' = a ∧ b' = b }

theorem grows_addEnv (r : Pairing) (i j : Nat) : r.Grows (r.addEnv i j) := ⟨.inl, id, .rfl⟩

theorem grows_addArray (r : Pairing) (a b : Nat) : r.Grows (r.addArray a b) := ⟨id, .inl, .rfl⟩

end Pairing

namespace Value

/-- The value refers to nothing, and it is not the sentinel. -/
def Plain : Value → Prop
  | .array _ | .sub _ | .tailCalled => False
  | _ => True

/-- The values are the same up to corresponding environments and arrays. -/
inductive Alike (r : Pairing) : Value → Value → Prop
  | plain {v : Value} : v.Plain → Alike r v v
  | array {a b : Nat} : r.arrays a b → Alike r (.array a) (.array b)
  | sub {f : SubValue} {j : Nat} : r.envs f.closure j → Alike r (.sub f) (.sub { f with closure := j })
  | tailCalled : r.sentinel → Alike r .tailCalled .tailCalled

variable {r r' : Pairing} {v w : Value}

theorem Alike.grow (h : v.Alike r w) (hr : r.Grows r') : v.Alike r' w := by
  cases h with
  | plain hv => exact .plain hv
  | array hab => exact .array (hr.arrays hab)
  | sub hij => exact .sub (hr.envs hij)
  | tailCalled hs => exact .tailCalled (hr.sentinel.mp hs)

theorem Alike.isTailCalled (h : v.Alike r w) : v.isTailCalled = w.isTailCalled := by
  cases h <;> rfl

end Value

abbrev ValuesAlike (r : Pairing) : List Value → List Value → Prop := List.Forall₂ (Value.Alike r)

namespace ValuesAlike

variable {r r' : Pairing} {vs ws : List Value}

theorem grow (h : ValuesAlike r vs ws) (hr : r.Grows r') : ValuesAlike r' vs ws :=
  h.imp fun _ _ hv => hv.grow hr

theorem of_plain (h : ∀ v ∈ vs, v.Plain) : ValuesAlike r vs vs :=
  List.forall₂_same.mpr fun v hv => .plain (h v hv)

theorem getElem? (h : ValuesAlike r vs ws) (n : Nat) : Option.Rel (Value.Alike r) vs[n]? ws[n]? := by
  induction h generalizing n with
  | nil => exact .none
  | cons hv _ ih =>
    cases n with
    | zero => exact .some hv
    | succ n => simpa using ih n

end ValuesAlike

/-! ## Stores -/

def BindingsAlike (r : Pairing) : Bindings → Bindings → Prop :=
  List.Forall₂ fun x y => x.1 = y.1 ∧ x.2.Alike r y.2

/-- The stores are the same as far as the pairing reaches. It pairs every environment with at most one,
    and every array with at most one. A number that stands for no array yet is paired with one that will
    stand for an array at the same time. -/
structure Store.Alike (r : Pairing) (s₁ s₂ : Store) : Prop where
  envs_lt : ∀ {i j}, r.envs i j → i < s₁.envs.size ∧ j < s₂.envs.size
  envs_unique : ∀ {i j i' j'}, r.envs i j → r.envs i' j' → (i = i' ↔ j = j')
  bindings : ∀ {i j}, r.envs i j → BindingsAlike r (s₁.env i).bindings (s₂.env j).bindings
  parent : ∀ {i j}, r.envs i j →
    Option.Rel (fun p q => r.envs p q ∧ (p < i ↔ q < j)) (s₁.parent i) (s₂.parent j)
  depth : ∀ {i j}, r.envs i j → s₁.depth i = s₂.depth j
  arrays_lt : ∀ {a b}, r.arrays a b → a < s₁.arrays.size ∧ b < s₂.arrays.size ∨
    s₁.arrays.size ≤ a ∧ s₂.arrays.size ≤ b ∧ a + s₂.arrays.size = b + s₁.arrays.size
  arrays_unique : ∀ {a b a' b'}, r.arrays a b → r.arrays a' b' → (a = a' ↔ b = b')
  elements : ∀ {a b}, r.arrays a b → ValuesAlike r (s₁.elements a).toList (s₂.elements b).toList

section Environments

variable {r : Pairing} {s₁ s₂ : Store} {i j : Nat} {name : String} {v w : Value}

theorem BindingsAlike.grow {r' : Pairing} {bs cs : Bindings} (h : BindingsAlike r bs cs)
    (hr : r.Grows r') : BindingsAlike r' bs cs :=
  List.Forall₂.imp (fun _ _ hxy => ⟨hxy.1, hxy.2.grow hr⟩) h

theorem BindingsAlike.get? {bs cs : Bindings} (h : BindingsAlike r bs cs) (name : String) :
    Option.Rel (Value.Alike r) (bs.get? name) (cs.get? name) := by
  induction h with
  | nil => exact .none
  | @cons x y _ _ hxy _ ih =>
    obtain ⟨n, v⟩ := x
    obtain ⟨n', w⟩ := y
    obtain ⟨rfl, hv⟩ : n = n' ∧ v.Alike r w := hxy
    simp only [Bindings.get?]
    split
    · exact .some hv
    · exact ih

theorem BindingsAlike.has {bs cs : Bindings} (h : BindingsAlike r bs cs) (name : String) :
    bs.has name = cs.has name := by
  unfold Bindings.has
  obtain ⟨hb, hc⟩ | ⟨v, w, hb, hc, -⟩ := option_rel_iff.mp (h.get? name)
  · rw [hb, hc]
  · rw [hb, hc]
    rfl

theorem BindingsAlike.put {bs cs : Bindings} (h : BindingsAlike r bs cs) (name : String)
    (hv : v.Alike r w) : BindingsAlike r (bs.put name v) (cs.put name w) := by
  induction h with
  | nil => exact .cons ⟨rfl, hv⟩ .nil
  | @cons x y _ _ hxy hrest ih =>
    obtain ⟨n, v'⟩ := x
    obtain ⟨n', w'⟩ := y
    obtain ⟨rfl, hv'⟩ : n = n' ∧ v'.Alike r w' := hxy
    simp only [Bindings.put]
    split
    · exact .cons ⟨rfl, hv⟩ hrest
    · exact .cons ⟨rfl, hv'⟩ ih

/-- Corresponding environments see a name in corresponding environments. -/
theorem alike_owner? (hs : s₁.Alike r s₂) (hij : r.envs i j) (name : String) :
    Option.Rel r.envs (s₁.owner? name i) (s₂.owner? name j) := by
  -- Both sides look outward in step, so the induction follows the ages of the left ones.
  induction i using Nat.strongRecOn generalizing j with
  | ind i ih =>
    rw [Store.owner?, Store.owner?, (hs.bindings hij).has name]
    split
    · exact .some hij
    · obtain ⟨hp, hq⟩ | ⟨p, q, hp, hq, hpq, hlt⟩ := option_rel_iff.mp (hs.parent hij)
      · rw [hp, hq]
        exact .none
      · simp only [hp, hq]
        by_cases hold : p < i
        · rw [if_pos hold, if_pos (hlt.mp hold)]
          exact ih p hold hpq
        · rw [if_neg hold, if_neg (mt hlt.mpr hold)]
          exact .none

theorem alike_get? (hs : s₁.Alike r s₂) (hij : r.envs i j) (name : String) :
    Option.Rel (Value.Alike r) (s₁.get? name i) (s₂.get? name j) := by
  unfold Store.get?
  obtain ⟨hi, hj⟩ | ⟨p, q, hi, hj, hpq⟩ := option_rel_iff.mp (alike_owner? hs hij name)
  · rw [hi, hj]
    exact .none
  · rw [hi, hj]
    exact (hs.bindings hpq).get? name

theorem alike_unwind (hs : s₁.Alike r s₂) (hij : r.envs i j) (depth : Nat) :
    r.envs (s₁.unwind depth i) (s₂.unwind depth j) := by
  induction i using Nat.strongRecOn generalizing j with
  | ind i ih =>
    rw [Store.unwind, Store.unwind, hs.depth hij]
    split
    · exact hij
    · obtain ⟨hp, hq⟩ | ⟨p, q, hp, hq, hpq, hlt⟩ := option_rel_iff.mp (hs.parent hij)
      · rw [hp, hq]
        exact hij
      · simp only [hp, hq]
        by_cases hold : p < i
        · rw [if_pos hold, if_pos (hlt.mp hold)]
          exact ih p hold hpq
        · rw [if_neg hold, if_neg (mt hlt.mpr hold)]
          exact hij

theorem Store.Alike.define (hs : s₁.Alike r s₂) (hij : r.envs i j) (hv : v.Alike r w)
    (name : String) : (s₁.define i name v).Alike r (s₂.define j name w) where
  envs_lt h := by simpa using hs.envs_lt h
  envs_unique := hs.envs_unique
  bindings := by
    intro i' j' h
    have hsame := hs.envs_unique hij h
    have hold := hs.bindings h
    obtain ⟨hi', hj'⟩ := hs.envs_lt h
    rw [Store.env_define, Store.env_define]
    by_cases heq : i = i'
    · rw [if_pos ⟨heq, hi'⟩, if_pos ⟨hsame.mp heq, hj'⟩]
      exact hold.put name hv
    · rw [if_neg fun hh => heq hh.1, if_neg fun hh => heq (hsame.mpr hh.1)]
      exact hold
  parent h := by simpa using hs.parent h
  depth h := by simpa using hs.depth h
  arrays_lt := hs.arrays_lt
  arrays_unique := hs.arrays_unique
  elements := hs.elements

theorem Store.Alike.extend (hs : s₁.Alike r s₂) (hij : r.envs i j) :
    (s₁.extend i).2.Alike (r.addEnv s₁.envs.size s₂.envs.size) (s₂.extend j).2 := by
  have hgrows := r.grows_addEnv s₁.envs.size s₂.envs.size
  -- What corresponded before are other environments than the two new ones.
  have hold : ∀ {i' j'}, r.envs i' j' → i' ≠ s₁.envs.size ∧ j' ≠ s₂.envs.size :=
    fun h => ⟨Nat.ne_of_lt (hs.envs_lt h).1, Nat.ne_of_lt (hs.envs_lt h).2⟩
  have henv : ∀ (s : Store) (k : Nat),
      (s.extend k).2.env s.envs.size = ⟨[], some k, s.depth k + 1⟩ := by
    intro s k
    rw [Store.env_extend, if_pos rfl]
  have henv' : ∀ (s : Store) (k k' : Nat), k' ≠ s.envs.size → (s.extend k).2.env k' = s.env k' := by
    intro s k k' hne
    rw [Store.env_extend, if_neg hne]
  constructor
  · rintro i' j' (h | ⟨rfl, rfl⟩)
    · have hlt := hs.envs_lt h
      simp only [Store.size_extend]
      omega
    · simp
  · rintro i₁ j₁ i₂ j₂ (h₁ | ⟨rfl, rfl⟩) (h₂ | ⟨rfl, rfl⟩)
    · exact hs.envs_unique h₁ h₂
    · exact iff_of_false (hold h₁).1 (hold h₁).2
    · exact iff_of_false (hold h₂).1.symm (hold h₂).2.symm
    · exact iff_of_true rfl rfl
  · rintro i' j' (h | ⟨rfl, rfl⟩)
    · rw [henv' _ _ _ (hold h).1, henv' _ _ _ (hold h).2]
      exact (hs.bindings h).grow hgrows
    · rw [henv, henv]
      exact .nil
  · rintro i' j' (h | ⟨rfl, rfl⟩)
    · have hparent := hs.parent h
      rw [Store.parent, Store.parent, henv' _ _ _ (hold h).1, henv' _ _ _ (hold h).2]
      obtain ⟨hp, hq⟩ | ⟨p, q, hp, hq, hpq, hlt⟩ := option_rel_iff.mp hparent
      · exact option_rel_iff.mpr (.inl ⟨hp, hq⟩)
      · exact option_rel_iff.mpr (.inr ⟨p, q, hp, hq, .inl hpq, hlt⟩)
    · rw [Store.parent, Store.parent, henv, henv]
      exact .some ⟨.inl hij, iff_of_true (hs.envs_lt hij).1 (hs.envs_lt hij).2⟩
  · rintro i' j' (h | ⟨rfl, rfl⟩)
    · have hdepth := hs.depth h
      rw [Store.depth, Store.depth, henv' _ _ _ (hold h).1, henv' _ _ _ (hold h).2]
      exact hdepth
    · rw [Store.depth, Store.depth, henv, henv]
      exact congrArg (· + 1) (hs.depth hij)
  · exact hs.arrays_lt
  · exact hs.arrays_unique
  · exact fun h => (hs.elements h).grow hgrows

end Environments

section Arrays

variable {r : Pairing} {s₁ s₂ : Store} {a b : Nat}

theorem elements_newArray (s : Store) (xs : Array Value) (ref : Nat) :
    (s.newArray xs).2.elements ref = if ref = s.arrays.size then xs else s.elements ref := by
  simp only [Store.newArray, Store.elements, Array.getElem?_push]
  split <;> rfl

theorem elements_modifyArray (s : Store) (ref : Nat) (f : Array Value → Array Value) (ref' : Nat) :
    (s.modifyArray ref f).elements ref' =
      if ref = ref' ∧ ref' < s.arrays.size then f (s.elements ref') else s.elements ref' := by
  simp only [Store.modifyArray, Store.elements, Array.getElem?_modify]
  by_cases heq : ref = ref'
  · subst heq
    by_cases hlt : ref < s.arrays.size
    · simp [hlt]
    · simp [hlt]
  · simp [heq]

theorem Store.Alike.newArray {xs ys : Array Value} (hs : s₁.Alike r s₂)
    (h : ValuesAlike r xs.toList ys.toList) :
    (s₁.newArray xs).2.Alike (r.addArray s₁.arrays.size s₂.arrays.size) (s₂.newArray ys).2 := by
  have hgrows := r.grows_addArray s₁.arrays.size s₂.arrays.size
  -- A number that was paired before it stood for an array meets its partner now.
  have hnew : ∀ {a b}, r.arrays a b → (a = s₁.arrays.size ↔ b = s₂.arrays.size) := by
    intro a b hab
    have hlt := hs.arrays_lt hab
    omega
  constructor
  · exact hs.envs_lt
  · exact hs.envs_unique
  · exact fun hij => (hs.bindings hij).grow hgrows
  · exact hs.parent
  · exact hs.depth
  · rintro a b (hab | ⟨rfl, rfl⟩)
    · have hlt := hs.arrays_lt hab
      simp only [Store.newArray, Array.size_push]
      omega
    · simp [Store.newArray]
  · rintro a b a' b' (hab | ⟨rfl, rfl⟩) (hab' | ⟨rfl, rfl⟩)
    · exact hs.arrays_unique hab hab'
    · exact hnew hab
    · exact eq_comm.trans ((hnew hab').trans eq_comm)
    · exact iff_of_true rfl rfl
  · rintro a b (hab | ⟨rfl, rfl⟩)
    · rw [elements_newArray, elements_newArray]
      by_cases ha : a = s₁.arrays.size
      · rw [if_pos ha, if_pos ((hnew hab).mp ha)]
        exact h.grow hgrows
      · rw [if_neg ha, if_neg (mt (hnew hab).mpr ha)]
        exact (hs.elements hab).grow hgrows
    · rw [elements_newArray, elements_newArray, if_pos rfl, if_pos rfl]
      exact h.grow hgrows

theorem Store.Alike.modifyArray {f g : Array Value → Array Value} (hs : s₁.Alike r s₂)
    (hab : r.arrays a b)
    (h : ValuesAlike r (f (s₁.elements a)).toList (g (s₂.elements b)).toList) :
    (s₁.modifyArray a f).Alike r (s₂.modifyArray b g) where
  envs_lt := hs.envs_lt
  envs_unique := hs.envs_unique
  bindings := hs.bindings
  parent := hs.parent
  depth := hs.depth
  arrays_lt h := by simpa [Store.modifyArray] using hs.arrays_lt h
  arrays_unique := hs.arrays_unique
  elements := by
    intro a' b' hab'
    have hsame := hs.arrays_unique hab hab'
    have hlt := hs.arrays_lt hab'
    rw [elements_modifyArray, elements_modifyArray]
    by_cases hchanged : a = a' ∧ a' < s₁.arrays.size
    · obtain ⟨rfl, ha⟩ := hchanged
      obtain rfl := hsame.mp rfl
      rw [if_pos ⟨rfl, ha⟩, if_pos ⟨rfl, by omega⟩]
      exact h
    · rw [if_neg hchanged, if_neg (by omega)]
      exact hs.elements hab'

end Arrays

end KestrelLang
