import Mathlib
import KestrelLang.Proofs.Number.Nearest

/-! # Integers as doubles

The conversion of an integer goes through the bits of a mantissa: it is shifted until 53 bits are left, and the bits that
fall out decide about rounding.

* `shiftRight_exact`, `roundedMantissa_shiftRight` — a shifted mantissa is a rounded quotient.
* `Carries` — an unpacked double stands for an integer.
* `Carries.unpack_pack` — the bits of a double lose nothing.
* `Carries.compare` — doubles are ordered like the integers that they stand for.
* `carries_ofInt64` — a word becomes the double nearest to it. -/

namespace KestrelLang.Binary64

open Float.Model Float.Model.UnpackedFloat

/-! ## Shifts -/

section Shifts

/-- What a remainder below `d` looks like after one more bit was added in front of it. -/
theorem residue_step {r d b : Nat} (hr : r < d) (hb : b < 2) :
    (2 * d ≤ 2 * (r + d * b) ↔ b ≠ 0) ∧
      (2 * (r + d * b) % (2 * d) ≠ 0 ↔ d ≤ 2 * r ∨ 2 * r % d ≠ 0) := by
  have hlow : 2 * (r + d * b) % (2 * d) = 2 * r := by
    rw [Nat.mul_add, ← Nat.mul_assoc, Nat.add_mul_mod_self_left, Nat.mod_eq_of_lt (by omega)]
  refine ⟨?_, ?_⟩
  · obtain rfl | rfl : b = 0 ∨ b = 1 := by omega
    · omega
    · omega
  · rw [hlow]
    by_cases hhalf : d ≤ 2 * r
    · omega
    · rw [Nat.mod_eq_of_lt (by omega)]
      omega

/-- After `k` shifts the whole quotient is left. The round bit says whether at least half of the divisor remains, the
    sticky bit whether more remains than is accounted for by that. -/
theorem shiftRight_exact (m k : Nat) :
    (⟨m, false, false⟩ : ExtendedMantissa) >>> k =
      ⟨m / 2 ^ k, decide (2 ^ k ≤ 2 * (m % 2 ^ k)), decide (2 * (m % 2 ^ k) % 2 ^ k ≠ 0)⟩ := by
  induction k with
  | zero => simp [HShiftRight.hShiftRight, Nat.repeat, Nat.mod_one]
  | succ k ih =>
    have hstep : (⟨m, false, false⟩ : ExtendedMantissa) >>> (k + 1) =
        ((⟨m, false, false⟩ : ExtendedMantissa) >>> k).shiftRightOne := rfl
    have hlast : m % (2 * 2 ^ k) = m % 2 ^ k + 2 ^ k * (m / 2 ^ k % 2) := by
      rw [Nat.mul_comm, Nat.mod_mul]
    have hquotient : m / 2 ^ (k + 1) = m / 2 ^ k / 2 := by
      rw [Nat.pow_succ, Nat.div_div_eq_div_mul]
    obtain ⟨hround, hsticky⟩ := residue_step (Nat.mod_lt m (Nat.two_pow_pos k)) (Nat.mod_lt (m / 2 ^ k) Nat.two_pos)
    rw [hstep, ih, ExtendedMantissa.shiftRightOne, hquotient, Nat.pow_succ 2 k, Nat.mul_comm (2 ^ k), hlast]
    simp only [hround, hsticky, ExtendedMantissa.mk.injEq, true_and]
    constructor
    · rw [Bool.eq_iff_iff, bne_iff_ne, decide_eq_true_iff]
    · rw [Bool.decide_or]

theorem roundedMantissa_shiftRight (m k : Nat) :
    ((⟨m, false, false⟩ : ExtendedMantissa) >>> k).roundedMantissa = roundDiv m (2 ^ k) := by
  rw [shiftRight_exact]
  have hbelow : m % 2 ^ k < 2 ^ k := Nat.mod_lt _ (Nat.two_pow_pos k)
  generalize hr : m % 2 ^ k = r at hbelow
  have hleft : 2 * r % 2 ^ k = if 2 ^ k ≤ 2 * r then 2 * r - 2 ^ k else 2 * r := by
    split
    · rw [Nat.mod_eq_sub_mod (by assumption), Nat.mod_eq_of_lt (by omega)]
    · rw [Nat.mod_eq_of_lt (by omega)]
  simp only [roundDiv, hr, hleft]
  -- What is dropped may be nothing, less than half of the last place, just half of it, or more.
  by_cases hhalf : 2 ^ k ≤ 2 * r
  · by_cases hmore : 2 * r - 2 ^ k = 0
    · have heq : 2 * r = 2 ^ k := by omega
      simp [heq, ExtendedMantissa.roundedMantissa, ExtendedMantissa.accuracy, Accuracy.roundToNearestEven]
    · have hgreater : 2 ^ k < 2 * r := by omega
      simp [hhalf, hmore, hgreater, Nat.not_lt.mpr hhalf, ExtendedMantissa.roundedMantissa,
        ExtendedMantissa.accuracy, Accuracy.roundToNearestEven]
  · have hless : 2 * r < 2 ^ k := by omega
    by_cases hzero : 2 * r = 0
    · simp [hzero, ExtendedMantissa.roundedMantissa, ExtendedMantissa.accuracy, Accuracy.roundToNearestEven]
    · simp [hhalf, hzero, hless, ExtendedMantissa.roundedMantissa, ExtendedMantissa.accuracy,
        Accuracy.roundToNearestEven]

end Shifts

/-! ## Doubles that stand for integers -/

/-- The unpacked double stands for an integer. A mantissa has all its bits, and the power of two is at least the one
    that the number 1 has. -/
inductive Carries : UnpackedFloat → Int → Prop where
  | zero (s : Sign) : Carries (.zero s) 0
  | finite (s : Sign) {m k : Nat} {v : Int} (h : 0 < m) (hlow : 2 ^ 52 ≤ m) (hhigh : m < 2 ^ 53) (hk : k < 1024)
      (hv : v * 2 ^ 52 = s.apply (m * 2 ^ k : Nat)) : Carries (.finite s m (k - 52) h) v

theorem log2_eq_of_mantissa {m : Nat} (hlow : 2 ^ 52 ≤ m) (hhigh : m < 2 ^ 53) : m.log2 = 52 :=
  (Nat.log2_eq_iff (by omega)).mpr ⟨hlow, hhigh⟩

/-- The first bit of a mantissa is not written down; it is put back in front of the others. -/
theorem toNat_append_mantissa {m : Nat} (hlow : 2 ^ 52 ≤ m) (hhigh : m < 2 ^ 53) :
    (1#1 ++ BitVec.ofNat 52 m).toNat = m := by
  have hrest : m % 2 ^ 52 < 2 ^ 52 := Nat.mod_lt _ (Nat.two_pow_pos 52)
  rw [BitVec.toNat_append, BitVec.toNat_ofNat, BitVec.toNat_ofNat, ← Nat.shiftLeft_add_eq_or_of_lt hrest, Nat.shiftLeft_eq]
  omega

theorem Carries.unpack_pack {x : UnpackedFloat} {v : Int} (h : Carries x v) :
    UnpackedFloat.unpack .binary64 (UnpackedFloat.pack .binary64 x) = x := by
  cases h with
  | zero s => exact unpack_packedZero
  | @finite s m k v hpos hlow hhigh hk hv =>
    have hbiased : ((k : Int) - 52 + (Format.binary64.exponentBias : Nat) + (52 : Nat)).toNat = k + 1023 := by
      simp only [Format.exponentBias]
      omega
    have hlog : m.log2 + 1 = Format.binary64.mantissaBits := by
      rw [log2_eq_of_mantissa hlow hhigh]
      rfl
    have hpack : UnpackedFloat.pack .binary64 (.finite s m (k - 52) hpos) =
        packComponents .binary64 s (BitVec.ofNat 11 (k + 1023)) (BitVec.ofNat 52 m) := by
      simp only [UnpackedFloat.pack, hbiased, if_pos hlog]
      rw [if_neg (by omega)]
    have hfield : (BitVec.ofNat 11 (k + 1023)).toNat = k + 1023 := by
      rw [BitVec.toNat_ofNat, Nat.mod_eq_of_lt (by omega)]
    -- The exponent is neither that of the infinite numbers nor that of the ones next to zero.
    have hfinite : BitVec.ofNat 11 (k + 1023) ≠ -1#_ := by
      intro heq
      have hbits := congrArg BitVec.toNat heq
      rw [hfield] at hbits
      simp at hbits
      omega
    have hnormal : BitVec.ofNat 11 (k + 1023) ≠ 0#_ := by
      intro heq
      have hbits := congrArg BitVec.toNat heq
      rw [hfield] at hbits
      simp at hbits
    rw [hpack, UnpackedFloat.unpack]
    simp only [unpackMantissa_packComponents, unpackExponent_packComponents, unpackSign_packComponents,
      Sign.ofBitVec_toBitVec, if_neg hfinite, if_neg hnormal, hfield, toNat_append_mantissa hlow hhigh]
    rw [UnpackedFloat.finite.injEq]
    refine ⟨rfl, rfl, ?_⟩
    simp only [Format.exponentBias]
    omega

/-! ## Order -/

section Order

variable {m n k j : Nat}

theorem compare_congr {α β : Type} [LinearOrder α] [LinearOrder β] {a b : α} {v w : β} (hlt : a < b ↔ v < w)
    (hgt : b < a ↔ w < v) : compare a b = compare v w := by
  obtain h | rfl | h := lt_trichotomy a b
  · rw [compare_lt_iff_lt.mpr h, compare_lt_iff_lt.mpr (hlt.mp h)]
  · have heq : v = w := le_antisymm (not_lt.mp fun h => lt_irrefl _ (hgt.mpr h)) (not_lt.mp fun h => lt_irrefl _ (hlt.mpr h))
    rw [heq, compare_eq_iff_eq.mpr rfl, compare_eq_iff_eq.mpr rfl]
  · rw [compare_gt_iff_gt.mpr h, compare_gt_iff_gt.mpr (hgt.mp h)]

/-- All mantissas have the same length, so a larger power of two makes a larger number. -/
theorem scaled_lt (hm : m < 2 ^ 53) (hn : 2 ^ 52 ≤ n) (h : k < j) : m * 2 ^ k < n * 2 ^ j :=
  calc m * 2 ^ k < 2 ^ 53 * 2 ^ k := Nat.mul_lt_mul_of_pos_right hm (Nat.two_pow_pos k)
    _ = 2 ^ 52 * 2 ^ (k + 1) := by rw [Nat.pow_succ]; omega
    _ ≤ n * 2 ^ j := Nat.mul_le_mul hn (Nat.pow_le_pow_right Nat.two_pos h)

theorem compare_scaled (hmlow : 2 ^ 52 ≤ m) (hmhigh : m < 2 ^ 53) (hnlow : 2 ^ 52 ≤ n) (hnhigh : n < 2 ^ 53) :
    (compare ((k : Int) - 52) (j - 52)).then (compare m n) = compare (m * 2 ^ k) (n * 2 ^ j) := by
  obtain h | rfl | h := lt_trichotomy k j
  · have hexp : compare ((k : Int) - 52) (j - 52) = .lt := compare_lt_iff_lt.mpr (by omega)
    rw [hexp, compare_lt_iff_lt.mpr (scaled_lt hmhigh hnlow h)]
    rfl
  · rw [compare_eq_iff_eq.mpr rfl]
    exact compare_congr (Nat.mul_lt_mul_right (Nat.two_pow_pos k)).symm (Nat.mul_lt_mul_right (Nat.two_pow_pos k)).symm
  · have hexp : compare ((k : Int) - 52) (j - 52) = .gt := compare_gt_iff_gt.mpr (by omega)
    rw [hexp, compare_gt_iff_gt.mpr (scaled_lt hnhigh hmlow h)]
    rfl

theorem Carries.compare {x y : UnpackedFloat} {v w : Int} (hx : Carries x v) (hy : Carries y w) :
    x.compare y = some (compare v w) := by
  cases hx with
  | zero s =>
    cases hy with
    | zero s' => rfl
    | @finite s' n j w hpos hlow hhigh hj hw =>
      have hsize : 0 < n * 2 ^ j := Nat.mul_pos hpos (Nat.two_pow_pos j)
      cases s' with
      | negative =>
        have hsign : w * 2 ^ 52 = -(n * 2 ^ j : Nat) := hw
        rw [compare_gt_iff_gt.mpr (by omega)]
        rfl
      | positive =>
        have hsign : w * 2 ^ 52 = (n * 2 ^ j : Nat) := hw
        rw [compare_lt_iff_lt.mpr (by omega)]
        rfl
  | @finite s m k v hmpos hmlow hmhigh hk hv =>
    have hmsize : 0 < m * 2 ^ k := Nat.mul_pos hmpos (Nat.two_pow_pos k)
    cases hy with
    | zero s' =>
      cases s with
      | negative =>
        have hsign : v * 2 ^ 52 = -(m * 2 ^ k : Nat) := hv
        rw [compare_lt_iff_lt.mpr (by omega)]
        rfl
      | positive =>
        have hsign : v * 2 ^ 52 = (m * 2 ^ k : Nat) := hv
        rw [compare_gt_iff_gt.mpr (by omega)]
        rfl
    | @finite s' n j w hpos hlow hhigh hj hw =>
      -- Two signs that differ decide. With the same sign the exponents do, and then the mantissas.
      have hsize : 0 < n * 2 ^ j := Nat.mul_pos hpos (Nat.two_pow_pos j)
      cases s with
      | negative =>
        have hleft : v * 2 ^ 52 = -(m * 2 ^ k : Nat) := hv
        cases s' with
        | negative =>
          have hright : w * 2 ^ 52 = -(n * 2 ^ j : Nat) := hw
          show some ((Ord.compare _ _).then (Ord.compare m n)).swap = _
          rw [compare_scaled hmlow hmhigh hlow hhigh, compare_congr (v := w) (w := v) (by omega) (by omega),
            ← Std.OrientedOrd.eq_swap]
        | positive =>
          have hright : w * 2 ^ 52 = (n * 2 ^ j : Nat) := hw
          rw [compare_lt_iff_lt.mpr (by omega)]
          rfl
      | positive =>
        have hleft : v * 2 ^ 52 = (m * 2 ^ k : Nat) := hv
        cases s' with
        | negative =>
          have hright : w * 2 ^ 52 = -(n * 2 ^ j : Nat) := hw
          rw [compare_gt_iff_gt.mpr (by omega)]
          rfl
        | positive =>
          have hright : w * 2 ^ 52 = (n * 2 ^ j : Nat) := hw
          show some ((Ord.compare _ _).then (Ord.compare m n)) = _
          rw [compare_scaled hmlow hmhigh hlow hhigh, compare_congr (v := v) (w := w) (by omega) (by omega)]

end Order

/-! ## Rounding -/

section Rounding

variable {n j : Nat}

theorem shiftToTargetExponent_exact {m k : Nat} {e : Int} (h : max ((m.log2 : Int) + 1 + e - 53) (-1074) = e + k) :
    shiftToTargetExponent .binary64 m e .exact = ((⟨m, false, false⟩ : ExtendedMantissa) >>> k, e + k) := by
  have htarget : Format.binary64.targetExponent (totalExponent m e) = e + k := h
  have hamount : (e + k - e).toNat = k := by omega
  simp only [shiftToTargetExponent, shiftToExponent, htarget, hamount]
  rfl

theorem roundDiv_mantissa (hn : 0 < n) (hj : 52 ≤ n.log2 + j) :
    2 ^ 52 ≤ roundDiv (n * 2 ^ j) (2 ^ (n.log2 + j - 52)) ∧ roundDiv (n * 2 ^ j) (2 ^ (n.log2 + j - 52)) ≤ 2 ^ 53 ∧
      roundDiv (n * 2 ^ j) (2 ^ (n.log2 + j - 52)) * 2 ^ n.log2 = nearestNat n * 2 ^ 52 := by
  by_cases hlog : 52 ≤ n.log2
  · have hdivisor : 2 ^ (n.log2 + j - 52) = gap n * 2 ^ j := by
      rw [gap, ← Nat.pow_add]
      congr 1
      omega
    obtain ⟨hlow, hhigh⟩ := roundDiv_gap_bounds hlog
    rw [hdivisor, roundDiv_mul_mul (Nat.two_pow_pos j), (two_pow_log2_eq hlog).1, nearestNat]
    exact ⟨hlow, hhigh, by ring⟩
  · -- All bits fit, and nothing is lost.
    have hexact : n * 2 ^ j = n * 2 ^ (52 - n.log2) * 2 ^ (n.log2 + j - 52) := by
      rw [Nat.mul_assoc, ← Nat.pow_add]
      congr 2
      omega
    have hpower : 2 ^ n.log2 * 2 ^ (52 - n.log2) = 2 ^ 52 := by
      rw [← Nat.pow_add]
      congr 1
      omega
    rw [hexact, roundDiv_mul (Nat.two_pow_pos _), nearestNat_of_lt ((Nat.log2_lt hn.ne').mp (by omega))]
    refine ⟨?_, ?_, ?_⟩
    · calc 2 ^ 52 = 2 ^ n.log2 * 2 ^ (52 - n.log2) := hpower.symm
        _ ≤ n * 2 ^ (52 - n.log2) := Nat.mul_le_mul_right _ (Nat.log2_self_le hn.ne')
    · calc n * 2 ^ (52 - n.log2) ≤ 2 ^ (n.log2 + 1) * 2 ^ (52 - n.log2) :=
          Nat.mul_le_mul_right _ Nat.lt_log2_self.le
        _ = 2 * 2 ^ 52 := by rw [Nat.pow_succ _ n.log2, Nat.mul_comm _ 2, Nat.mul_assoc, hpower]
        _ = 2 ^ 53 := rfl
    · rw [Nat.mul_assoc, Nat.mul_comm (2 ^ (52 - n.log2)), hpower]

theorem log2_mul_two_pow (hn : 0 < n) (j : Nat) : (n * 2 ^ j).log2 = n.log2 + j := by
  have hpos : n * 2 ^ j ≠ 0 := (Nat.mul_pos hn (Nat.two_pow_pos j)).ne'
  refine (Nat.log2_eq_iff hpos).mpr ⟨?_, ?_⟩
  · rw [Nat.pow_add]
    exact Nat.mul_le_mul_right _ (Nat.log2_self_le hn.ne')
  · rw [Nat.add_right_comm, Nat.pow_add]
    exact Nat.mul_lt_mul_of_pos_right Nat.lt_log2_self (Nat.two_pow_pos j)

theorem carries_roundWithAccuracy (s : Sign) (hn : 0 < n) (hj : 52 ≤ n.log2 + j) (hsize : n.log2 < 1000) :
    Carries (roundWithAccuracy .binary64 s (n * 2 ^ j) (-j) .exact) (s.apply (nearestNat n)) := by
  obtain ⟨hlow, hhigh, hvalue⟩ := roundDiv_mantissa hn hj
  have hfirst := shiftToTargetExponent_exact (m := n * 2 ^ j) (k := n.log2 + j - 52) (e := -j)
    (by rw [log2_mul_two_pow hn]; omega)
  have hexp : (-j : Int) + (n.log2 + j - 52 : Nat) = (n.log2 : Int) - 52 := by omega
  rw [hexp] at hfirst
  generalize hr : roundDiv (n * 2 ^ j) (2 ^ (n.log2 + j - 52)) = r at hlow hhigh hvalue
  have hsigned : s.apply (nearestNat n) * 2 ^ 52 = s.apply (r * 2 ^ n.log2 : Nat) := by
    rw [hvalue]
    cases s <;> simp [Sign.apply]
  obtain hfits | hcarry := Nat.lt_or_eq_of_le hhigh
  · have hsecond := shiftToTargetExponent_exact (m := r) (k := 0) (e := (n.log2 : Int) - 52)
      (by rw [log2_eq_of_mantissa hlow hfits]; omega)
    have hlast : (n.log2 : Int) - 52 + (0 : Nat) = (n.log2 : Int) - 52 := by omega
    rw [shiftRight_exact, Nat.pow_zero, Nat.div_one, hlast] at hsecond
    simp only [roundWithAccuracy, hfirst, roundedMantissa_shiftRight, hr, hsecond]
    rw [dif_neg (by omega)]
    exact .finite s (by omega) hlow hfits (by omega) hsigned
  · -- The mantissa got one bit too many, which is zero.
    have hsecond := shiftToTargetExponent_exact (m := r) (k := 1) (e := (n.log2 : Int) - 52)
      (by rw [hcarry, Nat.log2_two_pow]; omega)
    have hhalf : r / 2 ^ 1 = 2 ^ 52 := by
      rw [hcarry]
      rfl
    have hlast : (n.log2 : Int) - 52 + (1 : Nat) = (n.log2 + 1 : Nat) - 52 := by omega
    rw [shiftRight_exact, hhalf, hlast] at hsecond
    simp only [roundWithAccuracy, hfirst, roundedMantissa_shiftRight, hr, hsecond]
    rw [dif_neg (by decide)]
    refine .finite s (by decide) (by decide) (by decide) (by omega) ?_
    rw [hsigned, hcarry, Nat.pow_succ 2 n.log2, ← Nat.mul_assoc, Nat.mul_right_comm]
    rfl

end Rounding

/-! ## Integers -/

section Integers

variable {x : UnpackedFloat} {n : Nat}

theorem Carries.of_pack {v : Int} (h : Carries x v) : Carries (Float.Model.pack x).unpack v := by
  rw [Float.Model.unpack, Float.Model.pack]
  exact h.unpack_pack.symm ▸ h

theorem carries_ofNat_of_lt (h : n < 2 ^ 53) : Carries (UnpackedFloat.ofNat .binary64 n) n := by
  obtain rfl | hpos := Nat.eq_zero_or_pos n
  · exact .zero .positive
  have hlog : n.log2 < 53 := (Nat.log2_lt hpos.ne').mpr h
  have hsign : compare (n : Int) 0 = .gt := compare_gt_iff_gt.mpr (by omega)
  have htarget : Format.binary64.targetExponent (totalExponent n 0) = n.log2 - 52 := by
    simp only [Format.targetExponent, totalExponent, Format.mantissaBits, Format.minExponent]
    omega
  have hamount : (0 - ((n.log2 : Int) - 52)).toNat = 52 - n.log2 := by omega
  have hexp : (0 : Int) - (52 - n.log2 : Nat) = -(52 - n.log2 : Nat) := Int.zero_sub _
  have hround := carries_roundWithAccuracy (j := 52 - n.log2) .positive hpos (by omega) (by omega)
  rw [nearestNat_of_lt h] at hround
  simp only [UnpackedFloat.ofNat, UnpackedFloat.ofInt, UnpackedFloat.normalize, hsign, UnpackedFloat.round, htarget,
    decreaseExponent, hamount, Int.toNat_natCast, Nat.shiftLeft_eq, hexp]
  exact hround

theorem Carries.mul_one (hx : Carries x n) (h : n < 2 ^ 53) (hone : 0 < 2 ^ 52) :
    Carries (UnpackedFloat.mul .binary64 x (.finite .positive (2 ^ 52) (-52) hone)) n := by
  generalize hv : (n : Int) = v at hx
  cases hx with
  | zero s => exact .zero _
  | @finite s m k v hpos hlow hhigh hk hvalue =>
    have hsize : 0 < m * 2 ^ k := Nat.mul_pos hpos (Nat.two_pow_pos k)
    subst hv
    cases s with
    | negative =>
      have hsign : (n : Int) * 2 ^ 52 = -(m * 2 ^ k : Nat) := hvalue
      omega
    | positive =>
      have hsame : n * 2 ^ 52 = m * 2 ^ k := by
        have hsign : (n : Int) * 2 ^ 52 = (m * 2 ^ k : Nat) := hvalue
        omega
      -- The mantissa has all its bits, which leaves no room for a large power below `2 ^ 53`.
      have hpower : 2 ^ k < 2 ^ 53 := by
        have hle : 2 ^ 52 * 2 ^ k ≤ m * 2 ^ k := Nat.mul_le_mul_right _ hlow
        omega
      have hk : k < 53 := (Nat.pow_lt_pow_iff_right (by decide)).mp hpower
      have hmantissa : m * 2 ^ 52 = n * 2 ^ (104 - k) := by
        calc m * 2 ^ 52 = m * 2 ^ k * 2 ^ (52 - k) := by
              rw [Nat.mul_assoc, ← Nat.pow_add]
              congr 2
              omega
          _ = n * (2 ^ 52 * 2 ^ (52 - k)) := by rw [← hsame, Nat.mul_assoc]
          _ = n * 2 ^ (104 - k) := by
              rw [← Nat.pow_add]
              congr 2
              omega
      have hexp : (k : Int) - 52 + -52 = -(104 - k : Nat) := by omega
      have hn : 0 < n := by omega
      have hround := carries_roundWithAccuracy (j := 104 - k) .positive hn (by omega)
        (lt_trans ((Nat.log2_lt hn.ne').mpr h) (by decide))
      rw [nearestNat_of_lt h] at hround
      simp only [UnpackedFloat.mul, hmantissa, hexp]
      exact hround

theorem unpack_one : (Float.ofBits 0x3FF0000000000000).toModel.unpack = .finite .positive (2 ^ 52) (-52) (by decide) := by
  rfl

/-- A natural number becomes the double nearest to it. A small one is multiplied by a power of ten that is one, a large
    one goes through a longer mantissa. -/
theorem carries_ofNat (hsize : n.log2 < 1000) : Carries (Float.ofNat n).toModel.unpack (nearestNat n) := by
  by_cases h : n < 2 ^ 53
  · have hword : n.toUInt64.toNat = n := by
      rw [Nat.toUInt64_eq, UInt64.toNat_ofNat_of_lt' (by rw [UInt64.size]; omega)]
    have hfast : (Float.ofNat n).toModel =
        Float.Model.pack (UnpackedFloat.mul .binary64
          (Float.Model.pack (UnpackedFloat.ofNat .binary64 n.toUInt64.toNat)).unpack
          (Float.ofBits 0x3FF0000000000000).toModel.unpack) := by
      have hcase : n < 2 ^ 53 ∧ 0 ≤ 22 := ⟨h, by decide⟩
      show (Float.ofScientific n false 0).toModel = _
      rw [Float.ofScientific, dif_pos hcase]
      rfl
    rw [hfast, hword, unpack_one, nearestNat_of_lt h]
    exact ((carries_ofNat_of_lt h).of_pack.mul_one h _).of_pack
  · have hpos : 0 < n := by omega
    have hslow : (Float.ofNat n).toModel = Float.Model.pack (UnpackedFloat.ofScientific .binary64 n 0) := by
      show (Float.ofScientific n false 0).toModel = _
      rw [Float.ofScientific, dif_neg fun hcase => h hcase.1]
      rfl
    have hmodel : UnpackedFloat.ofScientific .binary64 n 0 =
        roundWithAccuracy .binary64 .positive (n * 2 ^ 53) (-(53 : Nat)) .exact := by
      have hbits : Format.binary64.exponentBits = 11 := rfl
      have hmantissa : Format.binary64.mantissaBits = 53 := rfl
      have hpower : 10 ^ Int.toNat 0 = 1 := rfl
      rw [UnpackedFloat.ofScientific, dif_neg hpos.ne', hbits, if_neg (by decide), if_neg (by omega), if_pos (le_refl 0)]
      simp only [UnpackedFloat.mul, Nat.shiftLeft_eq, hmantissa, hpower, Nat.mul_one, Int.add_zero]
      rfl
    rw [hslow, hmodel]
    exact (carries_roundWithAccuracy (j := 53) .positive hpos (by omega) hsize).of_pack

theorem Carries.neg {v : Int} (h : Carries x v) : Carries x.neg (-v) := by
  cases h with
  | zero s => exact .zero _
  | @finite s m k v hpos hlow hhigh hk hv =>
    refine .finite _ hpos hlow hhigh hk ?_
    rw [Int.neg_mul, hv]
    cases s with
    | negative => exact Int.neg_neg _
    | positive => rfl

theorem carries_ofInt64 (n : Int64) : Carries (ofInt64 n).toModel.unpack (nearest n.toInt) := by
  have hlow := n.le_toInt
  have hhigh := n.toInt_lt
  have hsize : n.toInt.natAbs.log2 < 1000 := by
    by_cases hzero : n.toInt.natAbs = 0
    · rw [hzero]
      decide
    · exact lt_trans ((Nat.log2_lt hzero).mpr (by omega : n.toInt.natAbs < 2 ^ 64)) (by decide)
  have hnat := carries_ofNat hsize
  rw [ofInt64]
  obtain ⟨m, hm | hm⟩ := n.toInt.eq_nat_or_neg
  · rw [hm, Int.natAbs_natCast] at hnat
    rw [hm, nearest_natCast]
    exact hnat
  · rw [hm, Int.natAbs_neg, Int.natAbs_natCast] at hnat
    rw [hm, nearest_neg, nearest_natCast]
    cases m with
    | zero => exact hnat
    | succ m => exact hnat.neg.of_pack

end Integers

/-! ## Comparison -/

theorem ofInt64_lt_iff (a b : Int64) : ofInt64 a < ofInt64 b ↔ nearest a.toInt < nearest b.toInt := by
  have hcompare := (carries_ofInt64 a).compare (carries_ofInt64 b)
  show decide (UnpackedFloat.lt (ofInt64 a).toModel.unpack (ofInt64 b).toModel.unpack = true) = true ↔ _
  rw [decide_eq_true_iff, UnpackedFloat.lt, hcompare, ← compare_lt_iff_lt (a := nearest a.toInt)]
  simp

end KestrelLang.Binary64
