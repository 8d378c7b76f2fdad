import Mathlib.Algebra.Order.Ring.Int
import Mathlib.Tactic.Linarith
import KestrelLang.Number.Binary64

/-! # The double nearest to an integer

* `Binary64.nearest` — the integer that the double nearest to an integer stands for.
* `Binary64.roundDiv_mono`, `Binary64.nearest_mono` — rounding keeps the order.
* `Binary64.nearest_of_natAbs_le` — integers of at most 2^53 in size are kept.
* `Binary64.nearest_lt_iff` — the order of the nearest doubles, by the order of the integers. -/

namespace KestrelLang.Binary64

/-! ## Rounded quotients -/

section Quotients

variable {n m d c q : Nat}

theorem roundDiv_mul (hd : 0 < d) : roundDiv (q * d) d = q := by
  have hpos : 2 * 0 < d := hd
  simp only [roundDiv, Nat.mul_div_left q hd, Nat.mul_mod_left, if_pos hpos]

theorem roundDiv_one (n : Nat) : roundDiv n 1 = n := by
  simpa only [Nat.mul_one] using roundDiv_mul (q := n) Nat.one_pos

theorem roundDiv_mul_mul (hc : 0 < c) : roundDiv (n * c) (d * c) = roundDiv n d := by
  have hless : ∀ a b, 2 * (a * c) < b * c ↔ 2 * a < b := by
    intro a b
    rw [← Nat.mul_assoc, Nat.mul_lt_mul_right hc]
  have hgreater : ∀ a b, b * c < 2 * (a * c) ↔ b < 2 * a := by
    intro a b
    rw [← Nat.mul_assoc, Nat.mul_lt_mul_right hc]
  simp only [roundDiv, Nat.mul_div_mul_right n d hc, Nat.mul_mod_mul_right, hless, hgreater]

theorem div_le_roundDiv (n d : Nat) : n / d ≤ roundDiv n d := by
  unfold roundDiv
  grind

theorem roundDiv_le_div_succ (n d : Nat) : roundDiv n d ≤ n / d + 1 := by
  unfold roundDiv
  grind

/-- Rounding keeps the order. Only quotients with the same whole part need a look at what is left. -/
theorem roundDiv_mono (h : n ≤ m) : roundDiv n d ≤ roundDiv m d := by
  have hwhole : n / d ≤ m / d := Nat.div_le_div_right h
  by_cases heq : n / d = m / d
  · have hleft : n % d ≤ m % d := by
      have hn := Nat.div_add_mod n d
      have hm := Nat.div_add_mod m d
      rw [heq] at hn
      omega
    simp only [roundDiv, heq]
    grind
  · calc roundDiv n d ≤ n / d + 1 := roundDiv_le_div_succ n d
      _ ≤ m / d := by omega
      _ ≤ roundDiv m d := div_le_roundDiv m d

end Quotients

/-! ## The nearest double -/

/-- The distance of the doubles around `n`: a mantissa has 53 bits. -/
def gap (n : Nat) : Nat := 2 ^ (n.log2 - 52)

/-- The natural number that the double nearest to `n` stands for. -/
def nearestNat (n : Nat) : Nat := roundDiv n (gap n) * gap n

/-- The integer that the double nearest to `n` stands for; of two that are equally near, the one with the even
    mantissa. -/
def nearest (n : Int) : Int := n.sign * nearestNat n.natAbs

section Nearest

variable {n m : Nat}

theorem gap_pos (n : Nat) : 0 < gap n := Nat.two_pow_pos _

theorem gap_of_lt (h : n < 2 ^ 53) : gap n = 1 := by
  by_cases hn : n = 0
  · subst hn
    rfl
  · have hlog : n.log2 < 53 := (Nat.log2_lt hn).mpr h
    rw [gap, Nat.sub_eq_zero_of_le (by omega)]
    rfl

/-- The powers of two around a number that needs all bits of a mantissa are multiples of its gap. -/
theorem two_pow_log2_eq (h : 52 ≤ n.log2) :
    2 ^ n.log2 = 2 ^ 52 * gap n ∧ 2 ^ (n.log2 + 1) = 2 ^ 53 * gap n := by
  rw [gap, ← Nat.pow_add, ← Nat.pow_add]
  exact ⟨by congr 1; omega, by congr 1; omega⟩

theorem nearestNat_of_lt (h : n < 2 ^ 53) : nearestNat n = n := by
  rw [nearestNat, gap_of_lt h, Nat.mul_one, roundDiv_one]

theorem roundDiv_gap_bounds (h : 52 ≤ n.log2) : 2 ^ 52 ≤ roundDiv n (gap n) ∧ roundDiv n (gap n) ≤ 2 ^ 53 := by
  obtain ⟨hlow, hhigh⟩ := two_pow_log2_eq h
  have hn : n ≠ 0 := by
    rintro rfl
    simp at h
  constructor
  · calc 2 ^ 52 = roundDiv (2 ^ 52 * gap n) (gap n) := (roundDiv_mul (gap_pos n)).symm
      _ ≤ roundDiv n (gap n) := roundDiv_mono (hlow ▸ Nat.log2_self_le hn)
  · calc roundDiv n (gap n) ≤ roundDiv (2 ^ 53 * gap n) (gap n) :=
        roundDiv_mono (hhigh ▸ Nat.lt_log2_self.le)
      _ = 2 ^ 53 := roundDiv_mul (gap_pos n)

theorem two_pow_log2_le_nearestNat (hn : n ≠ 0) : 2 ^ n.log2 ≤ nearestNat n := by
  by_cases h : 52 ≤ n.log2
  · rw [(two_pow_log2_eq h).1]
    exact Nat.mul_le_mul_right _ (roundDiv_gap_bounds h).1
  · rw [nearestNat_of_lt ((Nat.log2_lt hn).mp (by omega))]
    exact Nat.log2_self_le hn

theorem nearestNat_le_two_pow (n : Nat) : nearestNat n ≤ 2 ^ (n.log2 + 1) := by
  by_cases h : 52 ≤ n.log2
  · rw [(two_pow_log2_eq h).2]
    exact Nat.mul_le_mul_right _ (roundDiv_gap_bounds h).2
  · have hlt : n < 2 ^ (n.log2 + 1) := Nat.lt_log2_self
    have hsmall : 2 ^ (n.log2 + 1) ≤ 2 ^ 53 := Nat.pow_le_pow_right (by decide) (by omega)
    rw [nearestNat_of_lt (by omega)]
    exact hlt.le

/-- Between the same powers of two the gap is the same; a power of two separates the others. -/
theorem nearestNat_mono (h : n ≤ m) : nearestNat n ≤ nearestNat m := by
  by_cases hn : n = 0
  · subst hn
    exact Nat.zero_le _
  have hm : m ≠ 0 := by omega
  have hlog : n.log2 ≤ m.log2 := (Nat.le_log2 hm).mpr ((Nat.log2_self_le hn).trans h)
  by_cases heq : n.log2 = m.log2
  · have hgap : gap n = gap m := by rw [gap, gap, heq]
    rw [nearestNat, nearestNat, hgap]
    exact Nat.mul_le_mul_right _ (roundDiv_mono h)
  · calc nearestNat n ≤ 2 ^ (n.log2 + 1) := nearestNat_le_two_pow n
      _ ≤ 2 ^ m.log2 := Nat.pow_le_pow_right (by decide) (by omega)
      _ ≤ nearestNat m := two_pow_log2_le_nearestNat hm

end Nearest

section Integers

variable {a b n : Int}

@[simp]
theorem nearest_natCast (n : Nat) : nearest n = nearestNat n := by
  cases n with
  | zero => rfl
  | succ k => rw [nearest, Int.sign_eq_one_of_pos (by omega), Int.one_mul, Int.natAbs_natCast]

@[simp]
theorem nearest_neg (n : Int) : nearest (-n) = -nearest n := by
  rw [nearest, nearest, Int.sign_neg, Int.natAbs_neg, Int.neg_mul]

theorem nearest_of_natAbs_le (h : n.natAbs ≤ 2 ^ 53) : nearest n = n := by
  have hkept : nearestNat n.natAbs = n.natAbs := by
    obtain hlt | heq := Nat.lt_or_eq_of_le h
    · exact nearestNat_of_lt hlt
    · rw [heq]
      rfl
  rw [nearest, hkept, Int.sign_mul_natAbs]

theorem nearest_mono (h : a ≤ b) : nearest a ≤ nearest b := by
  obtain ⟨m, rfl | rfl⟩ := a.eq_nat_or_neg <;> obtain ⟨k, rfl | rfl⟩ := b.eq_nat_or_neg
  · rw [nearest_natCast, nearest_natCast]
    exact Int.ofNat_le.mpr (nearestNat_mono (by omega))
  · -- The left side is not below zero and the right side not above.
    obtain ⟨rfl, rfl⟩ : m = 0 ∧ k = 0 := by omega
    rfl
  · rw [nearest_neg, nearest_natCast, nearest_natCast]
    omega
  · rw [nearest_neg, nearest_neg, nearest_natCast, nearest_natCast]
    have hback : nearestNat k ≤ nearestNat m := nearestNat_mono (by omega)
    omega

theorem nearest_lt_iff (h : nearest a = nearest b → a = b) : nearest a < nearest b ↔ a < b := by
  constructor
  · intro hlt
    by_contra hle
    have := nearest_mono (not_lt.mp hle)
    omega
  · intro hlt
    have hle := nearest_mono hlt.le
    have hne : nearest a ≠ nearest b := fun heq => by
      have := h heq
      omega
    omega

end Integers

end KestrelLang.Binary64
