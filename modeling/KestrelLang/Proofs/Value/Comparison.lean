import KestrelLang.Proofs.Number.Conversion
import KestrelLang.Value.Operators

/-! # Comparison of integers

Arithmetic on two integers is on words. Their comparison goes through the doubles nearest to them, and different integers
may have the same one.

* `BinaryOp.between?` — the truth of a comparison between two integers.
* `compareFloats_ofInt64` — words are in the order of the nearest doubles.
* `integers_compare_as_nearest_doubles` — what each comparison of two integers gives, and when that is their own relation.
* `neighbours_compare_equal` — two integers that are not equal and compare as equal. -/

namespace KestrelLang

open Binary64 (nearest)

/-- The truth of a comparison between two integers; other operators do not compare. -/
def BinaryOp.between? (op : BinaryOp) (a b : Int) : Option Bool :=
  match op with
  | .eq => some (decide (a = b))
  | .ne => some (decide (a ≠ b))
  | .lt => some (decide (a < b))
  | .le => some (decide (a ≤ b))
  | .gt => some (decide (a > b))
  | .ge => some (decide (a ≥ b))
  | _ => none

section Integers

variable {a b : Int}

theorem compareFloats_ofInt64 (a b : Int64) :
    compareFloats (Binary64.ofInt64 a) (Binary64.ofInt64 b) = compare (nearest a.toInt) (nearest b.toInt) := by
  simp only [compareFloats, Binary64.ofInt64_lt_iff]
  obtain h | h | h := lt_trichotomy (nearest a.toInt) (nearest b.toInt)
  · rw [if_pos h, compare_lt_iff_lt.mpr h]
  · rw [if_neg h.not_lt, if_neg h.not_gt, compare_eq_iff_eq.mpr h]
  · rw [if_neg h.not_gt, if_pos h, compare_gt_iff_gt.mpr h]

theorem binaryOp_of_compare {s : Store} {op : BinaryOp} {left right : Value} {t : Bool}
    (horder : compareValues s left right = compare a b) (h : op.between? a b = some t) :
    binaryOp s op left right = (.ok (.bool t), s) := by
  cases op <;> simp only [BinaryOp.between?, Option.some.injEq, reduceCtorEq] at h
  all_goals
    subst h
    simp only [binaryOp, horder, Prod.mk.injEq, Except.ok.injEq, Value.bool.injEq, and_true]
    obtain hlt | heq | hgt := lt_trichotomy a b
    · rw [compare_lt_iff_lt.mpr hlt]
      simp
      omega
    · rw [compare_eq_iff_eq.mpr heq]
      simp
      omega
    · rw [compare_gt_iff_gt.mpr hgt]
      simp
      omega

/-- The relation of two integers is the one of the nearest doubles, unless different integers have the same one. -/
theorem between?_nearest (op : BinaryOp) (h : nearest a = nearest b → a = b) :
    op.between? (nearest a) (nearest b) = op.between? a b := by
  have hlt : nearest a < nearest b ↔ a < b := Binary64.nearest_lt_iff h
  have hgt : nearest b < nearest a ↔ b < a := Binary64.nearest_lt_iff fun heq => (h heq.symm).symm
  have heq : nearest a = nearest b ↔ a = b := ⟨h, congrArg nearest⟩
  have hle : nearest a ≤ nearest b ↔ a ≤ b := by rw [← not_lt, hgt, not_lt]
  have hge : nearest b ≤ nearest a ↔ b ≤ a := by rw [← not_lt, hlt, not_lt]
  cases op <;> simp only [BinaryOp.between?, ne_eq, gt_iff_lt, ge_iff_le, hlt, hgt, heq, hle, hge]

/-- Each comparison of two integers gives the relation of the doubles nearest to them. That is the relation of the
    integers themselves, unless they are different and have the same nearest double; integers of at most 2^53 in size are
    doubles, so among them it always is. -/
theorem integers_compare_as_nearest_doubles (s : Store) (op : BinaryOp) (a b : Int64) {t : Bool}
    (h : op.between? (nearest a.toInt) (nearest b.toInt) = some t) :
    binaryOp s op (.int a) (.int b) = (.ok (.bool t), s) ∧
    ((nearest a.toInt = nearest b.toInt → a = b) → op.between? a.toInt b.toInt = some t) ∧
    (a.toInt.natAbs ≤ 2 ^ 53 → nearest a.toInt = a.toInt) ∧ (b.toInt.natAbs ≤ 2 ^ 53 → nearest b.toInt = b.toInt) := by
  refine ⟨binaryOp_of_compare (compareFloats_ofInt64 a b) h, fun hsame => ?_, Binary64.nearest_of_natAbs_le,
    Binary64.nearest_of_natAbs_le⟩
  rw [← between?_nearest op fun heq => congrArg Int64.toInt (hsame heq)]
  exact h

/-- The first integer that is no double is below one that is, and the order of the nearest doubles says so. -/
theorem first_gap_is_crossed :
    nearest (9007199254740993 : Int64).toInt = 9007199254740992 ∧
      binaryOp .empty .lt (.int 9007199254740993) (.int 9007199254740994) = (.ok (.bool true), .empty) ∧
      BinaryOp.between? .lt 9007199254740993 9007199254740994 = some true := by
  obtain ⟨hresult, hrelation, -, -⟩ := integers_compare_as_nearest_doubles .empty .lt 9007199254740993 9007199254740994
    (t := true) (by decide)
  exact ⟨by decide, hresult, hrelation (by decide)⟩

/-- The integer 2^53 and the next one are not equal, and the operator says that they are. -/
theorem neighbours_compare_equal :
    BinaryOp.between? .eq (9007199254740992 : Int64).toInt (9007199254740993 : Int64).toInt = some false ∧
      ∀ s, binaryOp s .eq (.int 9007199254740992) (.int 9007199254740993) = (.ok (.bool true), s) := by
  refine ⟨by decide, fun s => ?_⟩
  have horder : compareValues s (.int 9007199254740992) (.int 9007199254740993) = compare (0 : Int) 0 := by
    rw [compareValues, Value.toNumeric, Value.toNumeric, Numeric.toFloat, Numeric.toFloat, compareFloats_ofInt64]
    · decide
    · simp
  exact binaryOp_of_compare horder rfl

end Integers

end KestrelLang
