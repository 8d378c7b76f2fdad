import Mathlib.Algebra.Group.Int.Defs
import KestrelLang.Value.Operators

/-! # Ranges

The width of a range is computed modulo the word size, and the bound on it is tested on the result. A range whose
width has no word is not caught by the test.

* `toInt_sub_of_fits`, `toInt_sub_of_wraps` — the difference of two words, by the difference of the integers.
* `Counts` — an array of consecutive integers.
* `range_by_true_width` — what a range gives, by its width among the integers.
* `half_word_range_aborts` — a range that is too large and is not refused. -/

namespace KestrelLang

/-! ## Differences of words -/

section Words

variable {low high : Int64}

theorem toInt_sub_of_fits (horder : low.toInt ≤ high.toInt) (h : high.toInt - low.toInt < 2 ^ 63) :
    (high - low).toInt = high.toInt - low.toInt := by
  rw [Int64.toInt_sub, Int.bmod_eq_of_le] <;> omega

theorem toInt_sub_of_wraps (h : 2 ^ 63 ≤ high.toInt - low.toInt) :
    (high - low).toInt = high.toInt - low.toInt - 2 ^ 64 := by
  have hlow := low.le_toInt
  have hhigh := high.toInt_lt
  rw [Int64.toInt_sub, ← Int.sub_bmod_right, Int.bmod_eq_of_le] <;> omega

end Words

/-! ## Elements -/

/-- The elements are the integers from `low` to `high`, each once and in order. -/
def Counts (low high : Int) (xs : Array Value) : Prop :=
  xs.size = (high - low + 1).toNat ∧ ∀ i < xs.size, ∃ n : Int64, xs[i]? = some (.int n) ∧ n.toInt = low + i

section Elements

variable {low high : Int64}

theorem toInt_maxElements : maxElements.toInt = 2 ^ 24 := by decide

theorem rangeOf_of_empty (h : high.toInt < low.toInt) : rangeOf low high = .ok #[] := by
  rw [rangeOf, if_pos (Int64.lt_iff_toInt_lt.mpr h)]

/-- The word of an element is the integer that it stands for: it lies between the ends, which have words. -/
theorem toInt_element {i : Nat} (h : low.toInt + i ≤ high.toInt) : (low + Int64.ofNat i).toInt = low.toInt + i := by
  have hlow := low.le_toInt
  have hhigh := high.toInt_lt
  have hi : (Int64.ofNat i).toInt = (i : Int).bmod (2 ^ 64) := Int64.toInt_ofNat
  rw [Int64.toInt_add, hi, Int.add_bmod_bmod, Int.bmod_eq_of_le] <;> omega

theorem rangeOf_of_narrow (horder : low.toInt ≤ high.toInt) (h : high.toInt - low.toInt < 2 ^ 24) :
    ∃ xs, rangeOf low high = .ok xs ∧ Counts low.toInt high.toInt xs := by
  have hwidth : (high - low).toInt = high.toInt - low.toInt := toInt_sub_of_fits horder (by omega)
  have hbound : ¬ maxElements ≤ high - low := by
    rw [Int64.le_iff_toInt_le, toInt_maxElements, hwidth]
    omega
  -- The number of elements is one more than the distance, and that has a word as well.
  have hroom : ¬ high - low + 1 < 0 := by
    have hsucc : (high - low + 1).toInt = high.toInt - low.toInt + 1 := by
      rw [Int64.toInt_add, hwidth, Int64.toInt_one, Int.bmod_eq_of_le] <;> omega
    rw [Int64.lt_iff_toInt_lt, hsucc, Int64.toInt_zero]
    omega
  have hordered : ¬ high < low := by
    rw [Int64.lt_iff_toInt_lt]
    omega
  have hsize : (high - low).toInt.toNat + 1 = (high.toInt - low.toInt + 1).toNat := by
    rw [hwidth]
    omega
  refine ⟨_, by rw [rangeOf, if_neg hordered, if_neg hbound, if_neg hroom], ?_, ?_⟩
  · rw [Array.size_ofFn, hsize]
  · intro i hi
    rw [Array.size_ofFn, hsize] at hi
    have hlast : low.toInt + i ≤ high.toInt := by omega
    refine ⟨low + Int64.ofNat i, ?_, toInt_element hlast⟩
    rw [Array.getElem?_ofFn, dif_pos (by omega)]

theorem rangeOf_of_wide (hwide : 2 ^ 24 ≤ high.toInt - low.toInt) (h : high.toInt - low.toInt < 2 ^ 63) :
    rangeOf low high = .error (.fault (.rangeTooLarge low high)) := by
  have hwidth : (high - low).toInt = high.toInt - low.toInt := toInt_sub_of_fits (by omega) h
  have hordered : ¬ high < low := by
    rw [Int64.lt_iff_toInt_lt]
    omega
  have hbound : maxElements ≤ high - low := by
    rw [Int64.le_iff_toInt_le, toInt_maxElements, hwidth]
    exact hwide
  rw [rangeOf, if_neg hordered, if_pos hbound]

/-- A width that has no word looks like a negative one: it passes the test for the bound, and no array has that many
    elements. Only for the widest range of all does it look like none. -/
theorem rangeOf_of_wraps (h : 2 ^ 63 ≤ high.toInt - low.toInt) (hhigh : high.toInt < 2 ^ 63 - 1) :
    rangeOf low high = .error .abort := by
  have hlow := low.le_toInt
  have hwidth : (high - low).toInt = high.toInt - low.toInt - 2 ^ 64 := toInt_sub_of_wraps h
  have hordered : ¬ high < low := by
    rw [Int64.lt_iff_toInt_lt]
    omega
  have hbound : ¬ maxElements ≤ high - low := by
    rw [Int64.le_iff_toInt_le, toInt_maxElements, hwidth]
    omega
  have hroom : high - low + 1 < 0 := by
    have hsucc : (high - low + 1).toInt = high.toInt - low.toInt - 2 ^ 64 + 1 := by
      rw [Int64.toInt_add, hwidth, Int64.toInt_one, Int.bmod_eq_of_le] <;> omega
    rw [Int64.lt_iff_toInt_lt, hsucc, Int64.toInt_zero]
    omega
  rw [rangeOf, if_neg hordered, if_neg hbound, if_pos hroom]

end Elements

/-! ## The operator -/

theorem binaryOp_range_of_ok {s : Store} {left right : Value} {xs : Array Value}
    (h : rangeOf (left.toNumeric s).toInt64 (right.toNumeric s).toInt64 = .ok xs) :
    binaryOp s .range left right = (.ok (.array (s.newArray xs).1), (s.newArray xs).2) := by
  simp only [binaryOp, h]

theorem binaryOp_range_of_error {s : Store} {left right : Value} {t : Trouble}
    (h : rangeOf (left.toNumeric s).toInt64 (right.toNumeric s).toInt64 = .error t) :
    binaryOp s .range left right = (.error t, s) := by
  simp only [binaryOp, h]

/-- What a range gives, for all values on its two sides, by the distance of the integers that they stand for. The
    upper end is below the largest word. If it is below the lower end, the range is an empty array. If it is less than
    2^24 above, the range is an array of all integers between the ends. If it is further above, the range is refused
    as too large, as long as the distance has a word; beyond that no array can be made, and everything ends. -/
theorem range_by_true_width (s : Store) (left right : Value) {low high : Int64}
    (hlow : (left.toNumeric s).toInt64 = low) (hhigh : (right.toNumeric s).toInt64 = high)
    (hmax : high.toInt < 2 ^ 63 - 1) :
    (high.toInt < low.toInt →
      binaryOp s .range left right = (.ok (.array (s.newArray #[]).1), (s.newArray #[]).2)) ∧
    (low.toInt ≤ high.toInt → high.toInt - low.toInt < 2 ^ 24 →
      ∃ xs, Counts low.toInt high.toInt xs ∧
        binaryOp s .range left right = (.ok (.array (s.newArray xs).1), (s.newArray xs).2)) ∧
    (2 ^ 24 ≤ high.toInt - low.toInt → high.toInt - low.toInt < 2 ^ 63 →
      binaryOp s .range left right = (.error (.fault (.rangeTooLarge low high)), s)) ∧
    (2 ^ 63 ≤ high.toInt - low.toInt → binaryOp s .range left right = (.error .abort, s)) := by
  subst hlow hhigh
  refine ⟨fun hempty => ?_, fun horder hnarrow => ?_, fun hwide hword => ?_, fun hwraps => ?_⟩
  · exact binaryOp_range_of_ok (rangeOf_of_empty hempty)
  · obtain ⟨xs, hxs, hcounts⟩ := rangeOf_of_narrow horder hnarrow
    exact ⟨xs, hcounts, binaryOp_range_of_ok hxs⟩
  · exact binaryOp_range_of_error (rangeOf_of_wide hwide hword)
  · exact binaryOp_range_of_error (rangeOf_of_wraps hwraps hmax)

/-- The last three integers below the largest word, the lower end given as a text. -/
theorem last_words_are_counted :
    ((Value.str " 9223372036854775804 ").toNumeric .empty).toInt64 = 9223372036854775804 ∧
      ∃ xs, Counts 9223372036854775804 9223372036854775806 xs ∧
        binaryOp .empty .range (.str " 9223372036854775804 ") (.int 9223372036854775806) =
          (.ok (.array (Store.empty.newArray xs).1), (Store.empty.newArray xs).2) := by
  have hlow : ((Value.str " 9223372036854775804 ").toNumeric .empty).toInt64 = 9223372036854775804 := rfl
  obtain ⟨-, hcounted, -, -⟩ :=
    range_by_true_width .empty (.str " 9223372036854775804 ") (.int 9223372036854775806) hlow rfl (by decide)
  exact ⟨hlow, hcounted (by decide) (by decide)⟩

/-- From one below zero by the largest word up to one the distance is half of all words. Such a range is too large,
    and it is not refused. -/
theorem half_word_range_aborts :
    ∃ low high : Int64, high.toInt < 2 ^ 63 - 1 ∧ 2 ^ 24 ≤ high.toInt - low.toInt ∧
      ∀ s, binaryOp s .range (.int low) (.int high) = (.error .abort, s) ∧
        binaryOp s .range (.int low) (.int high) ≠ (.error (.fault (.rangeTooLarge low high)), s) := by
  have hsame : ∀ s, binaryOp s .range (.int (-9223372036854775807)) (.int 1) = (.error .abort, s) := by
    intro s
    have hwraps : rangeOf (-9223372036854775807) 1 = .error .abort := rangeOf_of_wraps (by decide) (by decide)
    exact binaryOp_range_of_error hwraps
  refine ⟨-9223372036854775807, 1, by decide, by decide, fun s => ⟨hsame s, ?_⟩⟩
  rw [hsame]
  simp

end KestrelLang
