import KestrelLang.Proofs.Value.Likeness
import KestrelLang.Proofs.Value.Soundness

/-! # What values lead to

* `Store.Around` — the environments that are seen from one.
* `Value.LeadsTo`, `Store.EnvLeadsTo` — what can be found by following arrays and environments.
* `Value.LeadsTo.alike` — alike values lead to alike values.
* `Store.clear` — the pairing of everything that does not lead to the sentinel with itself. -/

namespace KestrelLang

/-! ## Following references -/

/-- The environment `i` is `id` or stands around it. -/
inductive Store.Around (s : Store) (id : Nat) : Nat → Prop
  | self : Around s id id
  | outward {i p : Nat} : Around s id i → s.parent i = some p → Around s id p

/-- A value leads to itself, an array to what its elements lead to, and a sub to what can be seen from the
    environment it was made in. -/
inductive Value.LeadsTo (s : Store) : Value → Value → Prop
  | self (v : Value) : LeadsTo s v v
  | element {ref : Nat} {v w : Value} :
    v ∈ (s.elements ref).toList → LeadsTo s v w → LeadsTo s (.array ref) w
  | binding {f : SubValue} {i : Nat} {b : String × Value} {w : Value} :
    s.Around f.closure i → b ∈ (s.env i).bindings → LeadsTo s b.2 w → LeadsTo s (.sub f) w

/-- What is bound in an environment or around it leads to the value. -/
def Store.EnvLeadsTo (s : Store) (id : Nat) (w : Value) : Prop :=
  ∃ i, s.Around id i ∧ ∃ b ∈ (s.env i).bindings, b.2.LeadsTo s w

namespace Store

variable {s : Store} {id p : Nat} {w : Value}

/-- What is seen from the environment around one is seen from the inner one. -/
theorem EnvLeadsTo.inward (hp : s.parent id = some p) (h : s.EnvLeadsTo p w) : s.EnvLeadsTo id w := by
  obtain ⟨i, haround, b, hb, hlead⟩ := h
  refine ⟨i, ?_, b, hb, hlead⟩
  clear hb
  induction haround with
  | self => exact .outward .self hp
  | outward _ hparent ih => exact .outward ih hparent

theorem leadsTo_sub {f : SubValue} (h : s.EnvLeadsTo f.closure w) : (Value.sub f).LeadsTo s w := by
  obtain ⟨i, haround, b, hb, hlead⟩ := h
  exact .binding haround hb hlead

end Store

/-! ## Alike values lead to alike values -/

section Alike

variable {r : Pairing} {s₁ s₂ : Store}

theorem Store.Around.alike (hs : s₁.Alike r s₂) {i j k : Nat} (h : s₁.Around i k) (hij : r.envs i j) :
    ∃ l, r.envs k l := by
  induction h with
  | self => exact ⟨j, hij⟩
  | outward _ hp ih =>
    obtain ⟨l, hkl⟩ := ih
    obtain ⟨hnone, -⟩ | ⟨p, q, hsome, -, hpq, -⟩ := option_rel_iff.mp (hs.parent hkl)
    · rw [hp] at hnone
      cases hnone
    · rw [hp] at hsome
      cases hsome
      exact ⟨q, hpq⟩

theorem exists_alike {α β : Type} {R : α → β → Prop} {xs : List α} {ys : List β} {x : α}
    (h : List.Forall₂ R xs ys) (hx : x ∈ xs) : ∃ y, R x y := by
  induction h with
  | nil => cases hx
  | cons hxy _ ih =>
    obtain rfl | hx := List.mem_cons.mp hx
    · exact ⟨_, hxy⟩
    · exact ih hx

theorem Value.LeadsTo.alike (hs : s₁.Alike r s₂) {v w : Value} (h : v.LeadsTo s₁ w) {v' : Value}
    (hv : v.Alike r v') : ∃ w', w.Alike r w' := by
  induction h generalizing v' with
  | self v => exact ⟨v', hv⟩
  | element hmem _ ih =>
    cases hv with
    | plain hplain => exact hplain.elim
    | array hab =>
      obtain ⟨x', hx⟩ := exists_alike (hs.elements hab) hmem
      exact ih hx
  | binding haround hmem _ ih =>
    cases hv with
    | plain hplain => exact hplain.elim
    | sub hij =>
      obtain ⟨l, hkl⟩ := haround.alike hs hij
      obtain ⟨y, -, hy⟩ := exists_alike (hs.bindings hkl) hmem
      exact ih hy

/-- Where the sentinel has no counterpart, nothing that has one leads to it. -/
theorem Value.Alike.not_leadsTo (hs : s₁.Alike r s₂) (hr : ¬ r.sentinel) {v v' : Value}
    (hv : v.Alike r v') : ¬ v.LeadsTo s₁ .tailCalled := by
  intro hlead
  obtain ⟨w', hw⟩ := hlead.alike hs hv
  cases hw with
  | plain hplain => exact hplain
  | tailCalled hsentinel => exact hr hsentinel

theorem Store.Alike.not_envLeadsTo (hs : s₁.Alike r s₂) (hr : ¬ r.sentinel) {i j : Nat}
    (hij : r.envs i j) : ¬ s₁.EnvLeadsTo i .tailCalled := by
  rintro ⟨k, haround, b, hb, hlead⟩
  obtain ⟨l, hkl⟩ := haround.alike hs hij
  obtain ⟨y, -, hy⟩ := exists_alike (hs.bindings hkl) hb
  exact hy.not_leadsTo hs hr hlead

end Alike

/-! ## What does not lead to the sentinel -/

/-- Everything that does not lead to the sentinel, paired with itself. -/
def Store.clear (s : Store) : Pairing where
  envs i j := i = j ∧ i < s.envs.size ∧ ¬ s.EnvLeadsTo i .tailCalled
  arrays a b := a = b ∧ ¬ (Value.array a).LeadsTo s .tailCalled
  sentinel := False

/-- A sound value that does not lead to the sentinel is its own counterpart. -/
theorem alike_self {s : Store} {v : Value} (hv : v.Sound s) (hlead : ¬ v.LeadsTo s .tailCalled) :
    v.Alike s.clear v := by
  cases v with
  | array ref => exact .array ⟨rfl, hlead⟩
  | sub f => exact .sub (j := f.closure) ⟨rfl, hv.1, mt Store.leadsTo_sub hlead⟩
  | tailCalled => exact absurd (.self _) hlead
  | _ => exact .plain trivial

theorem Store.Sound.alike_clear {s : Store} (hs : s.Sound) : s.Alike s.clear s := by
  constructor
  · rintro i j ⟨rfl, hlt, -⟩
    exact ⟨hlt, hlt⟩
  · rintro i j i' j' ⟨rfl, -⟩ ⟨rfl, -⟩
    rfl
  · rintro i j ⟨rfl, -, hlead⟩
    refine List.forall₂_same.mpr fun b hb => ⟨rfl, ?_⟩
    exact alike_self (hs.bindings i b hb) fun hb' => hlead ⟨i, .self, b, hb, hb'⟩
  · rintro i j ⟨rfl, hlt, hlead⟩
    cases hp : s.parent i with
    | none => exact .none
    | some p =>
      have hinward := hs.nested.inward hp
      -- What is around an environment that does not lead to the sentinel does not lead to it either.
      exact .some ⟨⟨rfl, Nat.lt_trans hinward.1 hlt, fun h => hlead (h.inward hp)⟩, .rfl⟩
  · rintro i j ⟨rfl, -⟩
    rfl
  · rintro a b ⟨rfl, -⟩
    omega
  · rintro a b a' b' ⟨rfl, -⟩ ⟨rfl, -⟩
    rfl
  · rintro a b ⟨rfl, hlead⟩
    refine List.forall₂_same.mpr fun v hv => ?_
    exact alike_self (hs.elements a v hv) fun hv' => hlead (.element hv hv')

end KestrelLang
