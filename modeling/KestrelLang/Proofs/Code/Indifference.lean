import KestrelLang.Proofs.Code.Closed

/-! # Lowering does not look at the units made so far

* `Indifferent` — a lowering gives the same with fewer names taken.
* `closed_indifferent` — all lowerings are indifferent: the names only have to be new. -/

namespace KestrelLang.Code

open KestrelLang.Label

/-- With fewer names taken the lowering succeeds too, and gives the same. -/
def Indifferent {α : Type} (x : Lower α) : Prop :=
  ∀ b a b', x b = .ok (a, b') → ∀ d : Build, d.names ⊆ b.names →
    ∃ d', x d = .ok (a, d') ∧ d'.names ⊆ b'.names

theorem reserve_of_new {c : Context} {name : String} {span : Span} {b : Build} (h : name ∉ b.names) :
    reserve c name span b = .ok ((), { b with names := name :: b.names }) := by
  simp only [reserve, Lower.bind_eq_ok]
  refine ⟨b, b, rfl, ?_⟩
  simp only [List.contains_eq_mem, h, decide_false, Bool.false_eq_true, if_false]
  rfl

theorem closed_indifferent (bodies : List (List Stmt)) : Closed bodies Indifferent where
  pure a := by
    intro b a' b' h d hd
    obtain ⟨rfl, rfl⟩ := Lower.pure_eq_ok.mp h
    exact ⟨d, rfl, hd⟩
  bind hx hf := by
    intro b a b' h d hd
    obtain ⟨y, b₁, h₁, h₂⟩ := Lower.bind_eq_ok.mp h
    obtain ⟨d₁, hd₁, hnames⟩ := hx b y b₁ h₁ d hd
    obtain ⟨d₂, hd₂, hnames'⟩ := hf y b₁ a b' h₂ d₁ hnames
    exact ⟨d₂, Lower.bind_eq_ok.mpr ⟨y, d₁, hd₁, hd₂⟩, hnames'⟩
  unsupported cause span := by
    intro b a b' h
    exact absurd h (by simp)
  openUnit c body := by
    intro b r b' h d hd
    obtain ⟨hr, rfl⟩ := openUnit_eq_ok.mp h
    exact ⟨_, openUnit_eq_ok.mpr ⟨hr, rfl⟩, hd⟩
  closure _ hbody := by
    intro b code b' h d hd
    simp only [lowerExpr, Lower.bind_eq_ok, Lower.modify_eq_ok, Lower.pure_eq_ok] at h ⊢
    obtain ⟨u, b₁, h₁, _, _, rfl, rfl, rfl⟩ := h
    obtain ⟨d₁, hd₁, hnames⟩ := hbody _ _ _ h₁ d hd
    exact ⟨_, ⟨u, d₁, hd₁, (), _, rfl, rfl, rfl⟩, hnames⟩
  sub {_ _ name _ _ _} _ hbody := by
    intro b code b' h d hd
    simp only [lowerStmt, Lower.bind_eq_ok, Lower.modify_eq_ok, Lower.pure_eq_ok] at h ⊢
    obtain ⟨_, b₁, h₁, u, b₂, h₂, _, _, rfl, rfl, rfl⟩ := h
    obtain ⟨hnew, rfl⟩ := reserve_eq_ok h₁
    obtain ⟨d₁, hd₁, hnames⟩ := hbody _ _ _ h₂ { d with names := name.text :: d.names }
      (List.cons_subset_cons _ hd)
    exact ⟨_, ⟨(), _, reserve_of_new fun hmem => hnew (hd hmem), u, d₁, hd₁, (), _, rfl, rfl, rfl⟩, hnames⟩

end KestrelLang.Code
