import Mathlib.Data.Set.Card
import Mathlib.Logic.Relation
import KestrelLang.Proofs.Value.Nesting

/-! # Environments as a tree

Closures share the scopes around them, so environments form a tree that is changed in place. What one assignment does
is said here for every environment of the tree, not only for the one that it was made in.

* `Store.Built` — the stores that any history of operations on environments leaves behind.
* `Store.Outward`, `Store.Ancestor` — the environments around one.
* `Store.Resolves` — the nearest environment that binds a name.
* `Store.Reassigned` — a store in which one binding got another value.
* `assignment_touches_one_binding` — assignment, depth and unwinding after any history. -/

namespace KestrelLang

/-! ## Bindings -/

namespace Bindings

variable {name : String} {v : Value}

theorem get?_put (name : String) (v : Value) (b : Bindings) (other : String) :
    (b.put name v).get? other = if other = name then some v else b.get? other := by
  induction b with
  | nil => simp [put, get?, eq_comm]
  | cons first rest ih =>
    obtain ⟨n, w⟩ := first
    by_cases hn : n = name
    · subst hn
      simp only [put, get?, if_true]
      split <;> simp_all [eq_comm]
    · simp only [put, get?, if_neg hn, ih]
      split <;> simp_all

theorem map_put_of_has {b : Bindings} (h : b.has name = true) : (b.put name v).map (·.1) = b.map (·.1) := by
  induction b with
  | nil => simp [has, get?] at h
  | cons first rest ih =>
    obtain ⟨n, w⟩ := first
    by_cases hn : n = name
    · simp [put, hn]
    · simpa [put, hn] using ih (by simpa [has, get?, hn] using h)

end Bindings

namespace Store

variable {s s' : Store} {name : String} {v : Value} {d e a c : Nat}

/-! ## Histories -/

/-- A store that a history of operations on environments leaves behind: environments are opened on their own or inside
    others, any number inside the same one; names are bound and assigned to; and arrays change as they may. -/
inductive Built : Store → Prop
  | empty : Built .empty
  | root {s : Store} (hs : Built s) : Built s.root.2
  | extend {s : Store} {id : Nat} (hs : Built s) (hid : id < s.envs.size) : Built (s.extend id).2
  | define {s : Store} {id : Nat} (hs : Built s) (hid : id < s.envs.size) (name : String) (v : Value) :
      Built (s.define id name v)
  | assign {s s' : Store} {id : Nat} {name : String} {v : Value} (hs : Built s) (hid : id < s.envs.size)
      (h : s.assign? id name v = some s') : Built s'
  | arrays {s : Store} (hs : Built s) (arrays : Array (Array Value)) : Built { s with arrays := arrays }

theorem env_root (s : Store) (id : Nat) : s.root.2.env id = s.env id := by
  simp only [root, env, Array.getElem?_push]
  split
  · simp [*]
  · rfl

theorem Nested.root (hs : s.Nested) : s.root.2.Nested where
  nonempty := by simp [Store.root]
  inward {id p} hp := by
    have hp' : s.parent id = some p := by rwa [parent, env_root] at hp
    simpa only [depth, env_root] using hs.inward hp'
  outermost {id} hp := by
    have hp' : s.parent id = none := by rwa [parent, env_root] at hp
    simpa only [depth, env_root] using hs.outermost hp'

theorem assign?_eq_some : s.assign? e name v = some s' ↔ ∃ a, s.owner? name e = some a ∧ s' = s.define a name v := by
  unfold assign?
  cases s.owner? name e with
  | none => simp
  | some a => simp [eq_comm]

theorem nested_empty : Store.empty.Nested := by
  have henv : ∀ id, Store.empty.env id = ⟨[], none, 0⟩ := fun id => by cases id <;> rfl
  exact ⟨by decide, fun hp => by simp [parent, henv] at hp, fun _ => by simp [depth, henv]⟩

theorem Built.nested (h : s.Built) : s.Nested := by
  induction h with
  | empty => exact nested_empty
  | root _ ih => exact ih.root
  | extend _ hid ih => exact ih.extend hid
  | define _ _ name v ih => exact ih.define _ name v
  | assign _ _ h ih =>
    obtain ⟨a, -, rfl⟩ := assign?_eq_some.mp h
    exact ih.define a _ _
  | arrays _ arrays ih => exact ih.of_envs_eq rfl

/-! ## Around an environment -/

/-- `outer` is right around `inner`. -/
def HasParent (s : Store) (inner outer : Nat) : Prop := s.parent inner = some outer

/-- `a` is `e` or one of its ancestors. -/
def Outward (s : Store) : Nat → Nat → Prop := Relation.ReflTransGen s.HasParent

/-- `a` is an ancestor of `e`. -/
def Ancestor (s : Store) : Nat → Nat → Prop := Relation.TransGen s.HasParent

theorem Outward.refl (s : Store) (e : Nat) : s.Outward e e := Relation.ReflTransGen.refl

theorem outward_iff : s.Outward e a ↔ a = e ∨ ∃ p, s.parent e = some p ∧ s.Outward p a :=
  Relation.ReflTransGen.cases_head_iff.trans (or_congr_left eq_comm)

theorem ancestor_iff : s.Ancestor e a ↔ ∃ p, s.parent e = some p ∧ s.Outward p a :=
  Relation.TransGen.head'_iff

theorem outward_iff_ancestor : s.Outward e a ↔ a = e ∨ s.Ancestor e a := by
  rw [outward_iff, ancestor_iff]

namespace Nested

variable (hs : s.Nested)
include hs

theorem le_of_outward (h : s.Outward e a) : a ≤ e := by
  induction h with
  | refl => exact Nat.le_refl _
  | tail _ hlast ih => exact Nat.le_trans (Nat.le_of_lt (hs.inward hlast).1) ih

theorem antisymm (h : s.Outward e a) (h' : s.Outward a e) : e = a :=
  Nat.le_antisymm (hs.le_of_outward h') (hs.le_of_outward h)

theorem depth_lt_of_ancestor (h : s.Ancestor e a) : s.depth a < s.depth e := by
  induction h with
  | single hp =>
    have hdepth := (hs.inward hp).2
    omega
  | tail _ hp ih =>
    have hdepth := (hs.inward hp).2
    omega

theorem encard_ancestors (e : Nat) : {a | s.Ancestor e a}.encard = s.depth e := by
  induction e using Nat.strongRecOn with
  | ind e ih =>
    cases hp : s.parent e with
    | none =>
      have hnone : {a | s.Ancestor e a} = ∅ := by
        ext a
        simp [ancestor_iff, hp]
      rw [hnone, Set.encard_empty, hs.outermost hp, Nat.cast_zero]
    | some p =>
      obtain ⟨hlt, hdepth⟩ := hs.inward hp
      have hsplit : {a | s.Ancestor e a} = insert p {a | s.Ancestor p a} := by
        ext a
        simp [ancestor_iff (e := e), hp, outward_iff_ancestor]
      have hnew : p ∉ {a | s.Ancestor p a} := fun h => Nat.lt_irrefl _ (hs.depth_lt_of_ancestor h)
      rw [hsplit, Set.encard_insert_of_notMem hnew, ih p hlt, hdepth, Nat.cast_add, Nat.cast_one]

/-- The ancestors of an environment stand one inside the other, so no two have the same depth. -/
theorem eq_of_depth_eq (h : s.Outward e a) (h' : s.Outward e c) (hdepth : s.depth a = s.depth c) : a = c := by
  have hunique : Relator.RightUnique s.HasParent := fun _ _ _ hp hq => Option.some.inj (hp.symm.trans hq)
  have hchain : s.Outward a c ∨ s.Outward c a := Relation.ReflTransGen.total_of_right_unique hunique h h'
  obtain hac | hca := hchain
  · obtain rfl | hlt := outward_iff_ancestor.mp hac
    · rfl
    · have := hs.depth_lt_of_ancestor hlt
      omega
  · obtain rfl | hlt := outward_iff_ancestor.mp hca
    · rfl
    · have := hs.depth_lt_of_ancestor hlt
      omega

theorem outward_unwind (k e : Nat) : s.Outward e (s.unwind k e) := by
  induction e using Nat.strongRecOn with
  | ind e ih =>
    by_cases hle : s.depth e ≤ k
    · rw [unwind_of_le hle]
      exact .refl s e
    · obtain ⟨p, hp, hlt, -, hunwind⟩ := hs.unwind_parent (Nat.lt_of_not_le hle)
      rw [hunwind]
      exact outward_iff.mpr (.inr ⟨p, hp, ih p hlt⟩)

theorem unwindTo_eq (k : Int) (e : Nat) : s.unwindTo k e = s.unwind k.toNat e := by
  induction e using Nat.strongRecOn with
  | ind e ih =>
    rw [unwindTo, unwind]
    cases hp : s.parent e with
    | none => simp only [ite_self]
    | some p =>
      obtain ⟨hlt, hdepth⟩ := hs.inward hp
      have hsame : ((s.depth e : Int) ≤ k) ↔ s.depth e ≤ k.toNat := by omega
      simp only [hsame, hlt, if_true, ih p hlt]

/-- Unwinding to a smaller depth gives the one environment of that depth on the way outward. Below zero it gives the
    outermost one, which is the environment itself if nothing is around it. -/
theorem unwindTo_iff {k : Int} (hk : k < s.depth e) (a : Nat) :
    s.Outward e a ∧ (s.depth a : Int) = max k 0 ↔ a = s.unwindTo k e := by
  rw [hs.unwindTo_eq]
  have hout := hs.outward_unwind k.toNat e
  have hdepth : s.depth (s.unwind k.toNat e) = k.toNat := hs.depth_unwind (by omega)
  constructor
  · rintro ⟨ha, hmax⟩
    exact hs.eq_of_depth_eq ha hout (by omega)
  · rintro rfl
    exact ⟨hout, by omega⟩

theorem ancestor_unwindTo {k : Int} (hk : k < s.depth e) (he : 0 < s.depth e) : s.Ancestor e (s.unwindTo k e) := by
  obtain ⟨hout, hdepth⟩ := (hs.unwindTo_iff hk _).mpr rfl
  obtain hself | hancestor := outward_iff_ancestor.mp hout
  · rw [hself] at hdepth
    omega
  · exact hancestor

end Nested

/-! ## The nearest binding -/

def Binds (s : Store) (name : String) (a : Nat) : Prop := (s.env a).bindings.has name = true

/-- `a` is the nearest environment that binds the name, seen from `e`: all others that do are around it. -/
structure Resolves (s : Store) (name : String) (e a : Nat) : Prop where
  outward : s.Outward e a
  binds : s.Binds name a
  nearest : ∀ c, s.Outward e c → s.Binds name c → s.Outward a c

theorem resolves_iff : s.Resolves name e a ↔
    s.Outward e a ∧ s.Binds name a ∧ ∀ c, s.Outward e c → s.Binds name c → s.Outward a c :=
  ⟨fun h => ⟨h.outward, h.binds, h.nearest⟩, fun h => ⟨h.1, h.2.1, h.2.2⟩⟩

theorem lt_of_binds (h : s.Binds name a) : a < s.envs.size := by
  by_contra hout
  simp [Binds, env, Array.getElem?_eq_none (Nat.le_of_not_lt hout), Bindings.has, Bindings.get?] at h

theorem Nested.resolves_unique (hs : s.Nested) (h : s.Resolves name e a) (h' : s.Resolves name e c) : a = c :=
  hs.antisymm (h.nearest c h'.outward h'.binds) (h'.nearest a h.outward h.binds)

theorem owner?_of_binds (h : s.Binds name e) : s.owner? name e = some e := by
  unfold Binds at h
  rw [owner?, if_pos h]

theorem Nested.owner?_of_parent (hs : s.Nested) (h : ¬ s.Binds name e) :
    s.owner? name e = (s.parent e).bind (s.owner? name) := by
  unfold Binds at h
  rw [owner?, if_neg h]
  cases hp : s.parent e with
  | none => rfl
  | some p => simp [(hs.inward hp).1]

/-- Looking up the owner of a name finds the nearest environment that binds it. -/
theorem Nested.resolves_of_owner? (hs : s.Nested) (h : s.owner? name e = some a) : s.Resolves name e a := by
  induction e using Nat.strongRecOn with
  | ind e ih =>
    by_cases hbinds : s.Binds name e
    · rw [owner?_of_binds hbinds] at h
      obtain rfl := Option.some.inj h
      exact ⟨.refl s e, hbinds, fun c hc _ => hc⟩
    · rw [hs.owner?_of_parent hbinds] at h
      obtain ⟨p, hp, howner⟩ := Option.bind_eq_some_iff.mp h
      have hfound := ih p (hs.inward hp).1 howner
      refine ⟨outward_iff.mpr (.inr ⟨p, hp, hfound.outward⟩), hfound.binds, fun c hc hcbinds => ?_⟩
      -- What binds the name is not `e` itself, so it is around its parent.
      obtain rfl | ⟨q, hq, hqc⟩ := outward_iff.mp hc
      · exact absurd hcbinds hbinds
      · cases hp.symm.trans hq
        exact hfound.nearest c hqc hcbinds

theorem Nested.exists_owner? (hs : s.Nested) (hc : s.Outward e c) (hbinds : s.Binds name c) :
    ∃ a, s.owner? name e = some a := by
  induction hc using Relation.ReflTransGen.head_induction_on with
  | refl => exact ⟨_, owner?_of_binds hbinds⟩
  | @head e p hp _ ih =>
    by_cases hhere : s.Binds name e
    · exact ⟨_, owner?_of_binds hhere⟩
    · obtain ⟨a, ha⟩ := ih
      exact ⟨a, by rw [hs.owner?_of_parent hhere, hp, Option.bind_some, ha]⟩

theorem Nested.owner?_eq_some_iff (hs : s.Nested) : s.owner? name e = some a ↔ s.Resolves name e a := by
  constructor
  · exact hs.resolves_of_owner?
  · intro h
    obtain ⟨a', ha'⟩ := hs.exists_owner? h.outward h.binds
    rw [ha', hs.resolves_unique (hs.resolves_of_owner? ha') h]

theorem get?_eq (s : Store) (name : String) (e : Nat) :
    s.get? name e = (s.owner? name e).bind fun a => (s.env a).bindings.get? name := by
  unfold get?
  cases s.owner? name e <;> rfl

/-! ## Assignment -/

/-- The store `s'` is `s` but for one thing: where `a` binds the name, it now binds it to `v`. -/
structure Reassigned (s s' : Store) (name : String) (a : Nat) (v : Value) : Prop where
  size : s'.envs.size = s.envs.size
  parent : ∀ id, s'.parent id = s.parent id
  depth : ∀ id, s'.depth id = s.depth id
  arrays : s'.arrays = s.arrays
  elsewhere : ∀ id, id ≠ a → s'.env id = s.env id
  names : (s'.env a).bindings.map (·.1) = (s.env a).bindings.map (·.1)
  others : ∀ other, other ≠ name → (s'.env a).bindings.get? other = (s.env a).bindings.get? other
  value : (s'.env a).bindings.get? name = some v

theorem reassigned_define (h : s.Binds name a) (v : Value) : s.Reassigned (s.define a name v) name a v := by
  have hin := lt_of_binds h
  have hhere : ((s.define a name v).env a).bindings = (s.env a).bindings.put name v := by
    rw [env_define, if_pos ⟨rfl, hin⟩]
  exact
    { size := size_define s a name v
      parent := parent_define s a name v
      depth := depth_define s a name v
      arrays := rfl
      elsewhere := fun id hid => by rw [env_define, if_neg fun hsame => hid hsame.1.symm]
      names := by rw [hhere, Bindings.map_put_of_has h]
      others := fun other hother => by rw [hhere, Bindings.get?_put, if_neg hother]
      value := by rw [hhere, Bindings.get?_put, if_pos rfl] }

theorem Reassigned.binds_iff (h : s.Reassigned s' name a v) (hbinds : s.Binds name a) (other : String) (id : Nat) :
    s'.Binds other id ↔ s.Binds other id := by
  by_cases hid : id = a
  · subst hid
    by_cases hother : other = name
    · subst hother
      exact iff_of_true (by simp [Binds, Bindings.has, h.value]) hbinds
    · rw [Binds, Binds, Bindings.has, Bindings.has, h.others other hother]
  · rw [Binds, Binds, h.elsewhere id hid]

theorem Reassigned.owner? (hs : s.Nested) (hs' : s'.Nested) (h : s.Reassigned s' name a v) (hbinds : s.Binds name a)
    (other : String) (d : Nat) : s'.owner? other d = s.owner? other d := by
  have hsame : s'.HasParent = s.HasParent := by
    funext inner outer
    rw [HasParent, HasParent, h.parent]
  have houtward : ∀ inner outer, s'.Outward inner outer ↔ s.Outward inner outer := by
    intro inner outer
    rw [Outward, Outward, hsame]
  have hresolves : ∀ o, s'.Resolves other d o ↔ s.Resolves other d o := by
    intro o
    simp only [resolves_iff, houtward, h.binds_iff hbinds]
  refine Option.ext fun o => ?_
  rw [hs'.owner?_eq_some_iff, hs.owner?_eq_some_iff, hresolves]

/-- A name has its new value wherever it resolves to the changed environment, and all else is seen as before. -/
theorem Reassigned.get? (hs : s.Nested) (hs' : s'.Nested) (h : s.Reassigned s' name a v) (hbinds : s.Binds name a)
    (other : String) (d : Nat) :
    (other = name ∧ s.Resolves name d a → s'.get? other d = some v) ∧
      (¬ (other = name ∧ s.Resolves name d a) → s'.get? other d = s.get? other d) := by
  rw [get?_eq, get?_eq, h.owner? hs hs' hbinds]
  constructor
  · rintro ⟨rfl, hresolves⟩
    rw [hs.owner?_eq_some_iff.mpr hresolves, Option.bind_some, h.value]
  · intro hother
    cases howner : s.owner? other d with
    | none => rfl
    | some o =>
      rw [Option.bind_some, Option.bind_some]
      by_cases ho : o = a
      · subst ho
        refine h.others other ?_
        rintro rfl
        exact hother ⟨rfl, hs.owner?_eq_some_iff.mp howner⟩
      · rw [h.elsewhere o ho]

/-- After any history, for every environment and name: an assignment succeeds exactly if the environment or one of its
    ancestors binds the name. Then the nearest of them binds it to the new value, and nothing else changes: a look-up
    from any environment gives the new value if it is of this name and resolves to the same environment, and gives what
    it gave before otherwise. An assignment that does not succeed makes no new store. The depth of an environment is the
    number of its ancestors. Unwinding goes nowhere if the environment is not deeper than wanted, and else to the one
    environment of the wanted depth on the way outward, or the outermost one if the wanted depth is negative. -/
theorem assignment_touches_one_binding {s : Store} (hs : s.Built) (e : Nat) (x : String) (v : Value) :
    ((s.assign? e x v).isSome = true ↔ ∃ a, s.Outward e a ∧ s.Binds x a) ∧
    (∀ s', s.assign? e x v = some s' → ∃ a, s.Resolves x e a ∧ s.Reassigned s' x a v ∧
      ∀ d y, (y = x ∧ s.Resolves x d a → s'.get? y d = some v) ∧
        (¬ (y = x ∧ s.Resolves x d a) → s'.get? y d = s.get? y d)) ∧
    {a | s.Ancestor e a}.encard = s.depth e ∧
    ∀ k : Int, (s.depth e ≤ k → s.unwindTo k e = e) ∧
      (k < s.depth e → (∀ a, s.Outward e a ∧ (s.depth a : Int) = max k 0 ↔ a = s.unwindTo k e) ∧
        (0 < s.depth e → s.Ancestor e (s.unwindTo k e))) := by
  have hnested := hs.nested
  refine ⟨?_, fun s' h => ?_, hnested.encard_ancestors e, fun k => ⟨fun hk => ?_, fun hk => ?_⟩⟩
  · rw [Option.isSome_iff_exists]
    constructor
    · rintro ⟨s', h⟩
      obtain ⟨a, howner, -⟩ := assign?_eq_some.mp h
      have hresolves := hnested.resolves_of_owner? howner
      exact ⟨a, hresolves.outward, hresolves.binds⟩
    · rintro ⟨a, hout, hbinds⟩
      obtain ⟨o, ho⟩ := hnested.exists_owner? hout hbinds
      exact ⟨_, assign?_eq_some.mpr ⟨o, ho, rfl⟩⟩
  · obtain ⟨a, howner, rfl⟩ := assign?_eq_some.mp h
    have hresolves := hnested.resolves_of_owner? howner
    have hchange := reassigned_define hresolves.binds v
    have hnested' := hnested.define a x v
    exact ⟨a, hresolves, hchange, fun d y => hchange.get? hnested hnested' hresolves.binds y d⟩
  · rw [unwindTo, if_pos hk]
  · exact ⟨hnested.unwindTo_iff hk, hnested.ancestor_unwindTo hk⟩

/-- Two scopes inside the outermost one, the second with a binding of its own, and a scope inside the first. -/
def sharedScopes : Store :=
  ⟨#[⟨[("x", .int 1)], none, 0⟩, ⟨[], some 0, 1⟩, ⟨[("x", .int 5)], some 0, 1⟩, ⟨[], some 1, 2⟩], #[]⟩

theorem built_sharedScopes : sharedScopes.Built := by
  have hfirst : (Store.empty.define 0 "x" (.int 1)).Built := .define .empty (by decide) _ _
  have hsecond : (((Store.empty.define 0 "x" (.int 1)).extend 0).2.extend 0).2.Built :=
    .extend (.extend hfirst (by decide)) (by decide)
  have hthird : ((((Store.empty.define 0 "x" (.int 1)).extend 0).2.extend 0).2.define 2 "x" (.int 5)).Built :=
    .define hsecond (by decide) _ _
  exact hthird.extend (by decide)

/-- From the innermost scope the outer binding gets the new value, and the first scope sees it. The second one still
    sees its own. -/
theorem shared_binding_is_reassigned :
    sharedScopes.Built ∧ ∃ s', sharedScopes.assign? 3 "x" (.int 7) = some s' ∧ s'.get? "x" 1 = some (.int 7) ∧
      s'.get? "x" 2 = sharedScopes.get? "x" 2 ∧ sharedScopes.Ancestor 3 (sharedScopes.unwindTo (-1) 3) := by
  obtain ⟨hsucceeds, heffect, -, hunwind⟩ := assignment_touches_one_binding built_sharedScopes 3 "x" (.int 7)
  have hnested := built_sharedScopes.nested
  have howner : sharedScopes.owner? "x" 3 = some 0 := by
    simp [owner?, env, parent, sharedScopes, Bindings.has, Bindings.get?]
  have howner₁ : sharedScopes.owner? "x" 1 = some 0 := by
    simp [owner?, env, parent, sharedScopes, Bindings.has, Bindings.get?]
  have howner₂ : sharedScopes.owner? "x" 2 = some 2 := by
    simp [owner?, env, sharedScopes, Bindings.has, Bindings.get?]
  have hresolves := hnested.owner?_eq_some_iff.mp howner
  obtain ⟨s', hs'⟩ := Option.isSome_iff_exists.mp (hsucceeds.mpr ⟨0, hresolves.outward, hresolves.binds⟩)
  obtain ⟨a, ha, -, hseen⟩ := heffect s' hs'
  obtain rfl := hnested.resolves_unique hresolves ha
  refine ⟨built_sharedScopes, s', hs', (hseen 1 "x").1 ⟨rfl, hnested.owner?_eq_some_iff.mp howner₁⟩, ?_,
    ((hunwind (-1)).2 (by decide)).2 (by decide)⟩
  refine (hseen 2 "x").2 fun h => ?_
  rw [← hnested.owner?_eq_some_iff, howner₂] at h
  simp at h

end Store

end KestrelLang
